import Projection.Path

/-!
# Listings of files

A listing gives what stands at some places. A place is the list of names that lead there from the
root. Relative paths start at the working directory, which is always there, and so is all above it.
-/

namespace Projection

/-- What stands at a place. There are no links, and no permissions: all can be read and written. -/
inductive Node where
  | directory
  | file (content : ByteArray)

/-- To tell whether a directory was found, the content of a file does not matter. -/
instance (found : Option Node) : Decidable (found = some .directory) :=
  match found with
  | none => .isFalse fun h => by cases h
  | some (.file _) => .isFalse fun h => by cases h
  | some .directory => .isTrue rfl

/-- Why a place could not be read or written. -/
inductive FileFault where
  | missing
  | exists
  | notDirectory
  | isDirectory
  | invalidText
  deriving DecidableEq, Repr

/-- The fault in words. -/
def FileFault.text : FileFault → String
  | missing => "No such file or directory (os error 2)"
  | «exists» => "File exists (os error 17)"
  | notDirectory => "Not a directory (os error 20)"
  | isDirectory => "Is a directory (os error 21)"
  | invalidText => "stream did not contain valid UTF-8"

/-- Places with what stands there, and the place where relative paths start. -/
structure Listing where
  workingDir : List String := []
  nodes : List (List String × Node) := []

namespace Listing

/-- What stands at a place. The working directory and all above it are directories. -/
def find? (l : Listing) (place : List String) : Option Node :=
  if place.isPrefixOf l.workingDir then some .directory
  else (l.nodes.find? (·.1 == place)).map (·.2)

/-- Puts something at a place. -/
def insert (l : Listing) (place : List String) (node : Node) : Listing :=
  if l.nodes.any (·.1 == place) then
    { l with nodes := l.nodes.map fun n => if n.1 == place then (place, node) else n }
  else { l with nodes := l.nodes ++ [(place, node)] }

/-! ### Places of paths -/

/-- Where a path starts. -/
def start (l : Listing) (path : Path) : List String :=
  if path.isAbsolute then [] else l.workingDir

/-- The place that a segment leads to. Above the root is the root. -/
def descend (place : List String) (segment : String) : List String :=
  if segment == "" || segment == "." then place
  else if segment == ".." then place.dropLast
  else place ++ [segment]

/-- The place of a path, whatever stands there and on the way. -/
def placeOf (l : Listing) (path : Path) : List String :=
  path.segments.foldl descend (l.start path)

/-- One step along a path, which only a directory allows. -/
def step (l : Listing) (place : List String) (segment : String) : Except FileFault (List String) :=
  match l.find? place with
  | none => .error .missing
  | some (.file _) => .error .notDirectory
  | some .directory => .ok (descend place segment)

/-- The place of a path. Nothing need stand there, but in a directory. -/
def locate (l : Listing) (path : Path) : Except FileFault (List String) :=
  if path.isEmpty then .error .missing
  else path.segments.foldlM l.step (l.start path)

/-! ### Reading -/

/-- What stands at a path. -/
def get (l : Listing) (path : Path) : Except FileFault Node := do
  match l.find? (← l.locate path) with
  | some node => .ok node
  | none => .error .missing

/-- Something stands at the path. -/
def contains (l : Listing) (path : Path) : Bool :=
  (l.get path).toBool

/-- A directory stands at the path. -/
def isDirectory (l : Listing) (path : Path) : Bool :=
  match l.get path with
  | .ok .directory => true
  | _ => false

/-- The text of a file. -/
def read (l : Listing) (path : Path) : Except FileFault String := do
  match ← l.get path with
  | .directory => .error .isDirectory
  | .file content =>
    match String.fromUTF8? content with
    | some text => .ok text
    | none => .error .invalidText

/-- The names in the directory at a place: the next one on the way to the working directory, and
those that are listed. -/
def namesIn (l : Listing) (place : List String) : List String :=
  (if place.isPrefixOf l.workingDir then (l.workingDir.drop place.length).head?.toList else []) ++
    l.nodes.filterMap fun n => if n.1.dropLast == place then n.1.getLast? else none

/-- The names in a directory. -/
def readDir (l : Listing) (path : Path) : Except FileFault (List String) := do
  let place ← l.locate path
  match l.find? place with
  | none => .error .missing
  | some (.file _) => .error .notDirectory
  | some .directory => .ok (l.namesIn place)

/-- The files that are listed, with their places. -/
def files (l : Listing) : List (List String × ByteArray) :=
  l.nodes.filterMap fun
    | (place, .file content) => some (place, content)
    | (_, .directory) => none

/-! ### Writing -/

/-- Why a directory cannot be made below a file, or in its place. The whole path is tried first, and
goes through the file. If it failed earlier, where a directory was missing and is `made` by now, the
directories are tried one by one, and the first that fails is the one in the place of the file. -/
def blocked (made : Bool) (rest : List String) : FileFault :=
  if rest.all (· == "") || (made && rest.any fun segment => (Path.inner? segment).isSome) then
    .exists
  else .notDirectory

/-- Makes the directories on the way from a directory. Those that were made stay if a file is in the
way of the next. -/
def makeDirsFrom (l : Listing) (place : List String) (made : Bool) :
    List String → Except FileFault Unit × Listing
  | [] => (.ok (), l)
  | segment :: rest =>
    if segment == "" || segment == "." then l.makeDirsFrom place made rest
    else if segment == ".." then l.makeDirsFrom place.dropLast made rest
    else
      match l.find? (place ++ [segment]) with
      | none =>
        (l.insert (place ++ [segment]) .directory).makeDirsFrom (place ++ [segment]) true rest
      | some .directory => l.makeDirsFrom (place ++ [segment]) made rest
      | some (.file _) => (.error (blocked made rest), l)

/-- Makes a directory with all that are missing above it. -/
def makeDirs (l : Listing) (path : Path) : Except FileFault Unit × Listing :=
  l.makeDirsFrom (l.start path) false path.segments

/-- Writes a file in a directory that is there. -/
def write (l : Listing) (path : Path) (content : ByteArray) : Except FileFault Listing := do
  let place ← l.locate path
  match l.find? place with
  | some .directory => .error .isDirectory
  | _ => .ok (l.insert place (.file content))

/-- Puts a directory, or a file with the directories above it, where it can be. -/
def place (l : Listing) (path : Path) : Node → Listing
  | .directory =>
    match l.makeDirs path with
    | (.ok (), made) => made
    | (.error _, _) => l
  | .file content =>
    match l.makeDirsFrom (l.start path) false path.segments.dropLast with
    | (.ok (), made) => (made.write path content).toOption.getD l
    | (.error _, _) => l

end Listing

end Projection
