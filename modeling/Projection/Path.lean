/-!
# Paths

A path is a text. Two paths are the same place if they have the same components: slashes that
follow each other count as one, and a dot counts only at the start of a path.
-/

namespace Projection

/-- A path, as it was written. -/
abbrev Path := String

/-- A part of a path. -/
inductive Component where
  | root
  | here
  | parent
  | name (s : String)
  deriving DecidableEq, Repr

/-- Components are in the order of their kinds, names by their characters. -/
def Component.order : Component → Component → Ordering
  | name s, name t => compare s t
  | a, b => compare a.ctorIdx b.ctorIdx

namespace Path

/-- The parts of a text between slashes. -/
def splitSlashes : List Char → List (List Char)
  | [] => [[]]
  | '/' :: cs => [] :: splitSlashes cs
  | c :: cs =>
    match splitSlashes cs with
    | [] => [[c]]
    | part :: parts => (c :: part) :: parts

/-- The texts between the slashes of a path, empty ones too. -/
def segments (path : Path) : List String :=
  (splitSlashes path.toList).map String.ofList

/-- The path starts at the root. -/
def isAbsolute (path : Path) : Bool :=
  path.toList.head? == some '/'

/-- The component of a segment that is not the first. -/
def inner? (segment : String) : Option Component :=
  if segment == "" || segment == "." then none
  else if segment == ".." then some .parent
  else some (.name segment)

/-- The components of a path. -/
def components (path : Path) : List Component :=
  let start := if path.isAbsolute then [.root]
    else if path.segments.head? == some "." then [.here]
    else []
  start ++ path.segments.filterMap inner?

/-- Paths are compared component by component. -/
def orderComponents : List Component → List Component → Ordering
  | [], [] => .eq
  | [], _ :: _ => .lt
  | _ :: _, [] => .gt
  | a :: as, b :: bs => (a.order b).then (orderComponents as bs)

/-- The order of two paths. -/
def order (p q : Path) : Ordering :=
  orderComponents p.components q.components

/-- Drops paths of the same place as the one that was kept last. -/
def dedupAfter (last : Path) : List Path → List Path
  | [] => []
  | p :: rest => if order last p == .eq then dedupAfter last rest else p :: dedupAfter p rest

/-- Of paths of one place that follow each other, the first. -/
def dedup : List Path → List Path
  | [] => []
  | p :: rest => p :: dedupAfter p rest

/-- The paths in order, each place once, as it was written first. -/
def sorted (paths : List Path) : List Path :=
  dedup (paths.mergeSort fun p q => (order p q).isLE)

/-- A path with one more component. -/
def join (path : Path) (name : String) : Path :=
  if path.isEmpty then name
  else if path.toList.getLast? == some '/' then path ++ name
  else path ++ "/" ++ name

/-- The name is that of a file or directory in the directory where it is looked up. -/
structure IsPlain (name : String) : Prop where
  noSlash : '/' ∉ name.toList
  ne_empty : name ≠ ""
  ne_here : name ≠ "."
  ne_parent : name ≠ ".."

instance (name : String) : Decidable (IsPlain name) :=
  decidable_of_iff ('/' ∉ name.toList ∧ name ≠ "" ∧ name ≠ "." ∧ name ≠ "..")
    ⟨fun ⟨noSlash, ne_empty, ne_here, ne_parent⟩ => ⟨noSlash, ne_empty, ne_here, ne_parent⟩,
      fun ⟨noSlash, ne_empty, ne_here, ne_parent⟩ => ⟨noSlash, ne_empty, ne_here, ne_parent⟩⟩

/-- What follows the last dot of a name. A dot at the start of the name does not count. -/
def extension? (name : String) : Option String :=
  let reversed := name.toList.reverse
  let tail := reversed.takeWhile (· != '.')
  match reversed.drop tail.length with
  | '.' :: _ :: _ => some (String.ofList tail.reverse)
  | _ => none

end Path

end Projection
