import Projection.Name

/-!
# Alias patterns

An alias pattern renames every property of a group. It looks for a text at the start of a name
(`^text`), at its end (`text$`), as the whole name (both), or anywhere (neither), and puts another
text in its place. With one anchor and no text it adds to that end of the name.
-/

namespace Projection

/-- A rule that renames. -/
structure AliasPattern where
  atStart : Bool
  atEnd : Bool
  sought : String
  replacement : String
  deriving DecidableEq, Repr

namespace AliasPattern

/-- The text with `lead` taken off its start. -/
def withoutLead? (lead cs : List Char) : Option (List Char) :=
  if lead.isPrefixOf cs then some (cs.drop lead.length) else none

/-- The text with `tail` taken off its end. -/
def withoutTail? (tail cs : List Char) : Option (List Char) :=
  (withoutLead? tail.reverse cs.reverse).map List.reverse

/-- Puts `new` in place of every `old`, from left to right; the number counts characters of an
`old` already replaced. -/
def replaceAll (old new : List Char) : Nat → List Char → List Char
  | _, [] => []
  | n + 1, _ :: cs => replaceAll old new n cs
  | 0, c :: cs =>
    if old.isPrefixOf (c :: cs) then new ++ replaceAll old new (old.length - 1) cs
    else c :: replaceAll old new 0 cs

/-- The renamed text, if the pattern has something to rename. -/
def rename? (p : AliasPattern) (name : Name) : Option String :=
  match p.atStart, p.atEnd, p.sought.isEmpty with
  | true, false, true => some (Name.after name p.replacement)
  | false, true, true => some (name ++ p.replacement)
  | true, true, false => if name == p.sought then some p.replacement else none
  | true, false, false =>
    (withoutLead? p.sought.toList name.toList).map fun rest =>
      if p.replacement.isEmpty then Text.decapitalize (String.ofList rest)
      else Name.after (String.ofList rest) p.replacement
  | false, true, false =>
    (withoutTail? p.sought.toList name.toList).map fun rest =>
      String.ofList rest ++ p.replacement
  | false, false, false =>
    some (String.ofList (replaceAll p.sought.toList p.replacement.toList 0 name.toList))
  | _, _, true => none

/-- The name that the pattern gives. A name that does not match, or of which nothing would be left,
stays as it is. -/
def apply (p : AliasPattern) (name : Name) : Name :=
  match p.rename? name with
  | some renamed => if renamed.isEmpty then name else renamed
  | none => name

/-- The pattern as it is shown. -/
def text (p : AliasPattern) : String :=
  (if p.atStart then "^" else "") ++ p.sought ++ (if p.atEnd then "$" else "") ++ " -> " ++
    p.replacement

end AliasPattern

end Projection
