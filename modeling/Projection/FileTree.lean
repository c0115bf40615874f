import Projection.FileTree.Shape

/-!
# File trees

A file tree is the part of a file system that a run can see, as a value. It is a listing that makes
a tree, and what can be done to it leaves a tree.
-/

namespace Projection

/-- A listing that makes a tree. -/
structure FileTree extends Listing where
  isTree : toListing.IsTree := by decide

namespace FileTree

/-- The tree without files whose working directory is at an absolute path. -/
def seenFrom (path : Path) : FileTree where
  workingDir := path.segments.filter fun name => Path.IsPlain name
  isTree := .of_workingDir fun _ hname => of_decide_eq_true (List.mem_filter.mp hname).2

/-- Makes a directory with all that are missing above it. -/
def makeDirs (tree : FileTree) (path : Path) : Except FileFault Unit × FileTree :=
  let made := tree.toListing.makeDirs path
  (made.1, ⟨made.2, tree.isTree.makeDirs path⟩)

/-- Writes a file in a directory that is there. -/
def write (tree : FileTree) (path : Path) (content : ByteArray) : Except FileFault FileTree :=
  match h : tree.toListing.write path content with
  | .ok written => .ok ⟨written, tree.isTree.write h⟩
  | .error fault => .error fault

/-- Puts a directory, or a file with the directories above it, into the tree where it can be. -/
def place (tree : FileTree) (path : Path) (node : Node) : FileTree :=
  ⟨tree.toListing.place path node, Listing.isTree_place tree.isTree path node⟩

end FileTree

end Projection
