import Projection.FileTree

/-!
# Discovery

The sources of a run are the files with a given extension below some directories. Directories are
read one by one, and each path in a directory is asked whether it is a directory itself. The sources
are then put in the order of their paths, each place once. A directory that does not exist holds no
sources.
-/

namespace Projection.FileTree

/-- A directory in a directory is one step deeper, and no directory is deeper than the tree. -/
theorem deeper {tree : FileTree} {directory : Path} {names : List String} {name : String}
    (hread : tree.readDir directory = .ok names) (hname : name ∈ names)
    (hdirectory : tree.isDirectory (Path.join directory name) = true) :
    tree.depth - (tree.placeOf (Path.join directory name)).length <
      tree.depth - (tree.placeOf directory).length := by
  obtain ⟨_, rfl⟩ := Listing.readDir_eq_ok_iff.mp hread
  have hplace := tree.placeOf_join directory (tree.isTree.plain_of_mem_namesIn hname)
  have hle := Listing.length_le_depth (Listing.find?_of_get (Listing.isDirectory_iff.mp hdirectory))
  rw [hplace, List.length_append, List.length_singleton] at hle ⊢
  omega

/-- Adds the sources below a directory to those that were found. A directory that cannot be read
ends the search. -/
def walk (tree : FileTree) (extension : String) (directory : Path) (found : List Path) :
    Except (Path × FileFault) (List Path) :=
  match _ : tree.readDir directory with
  | .error fault => .error (directory, fault)
  | .ok names =>
    names.attach.foldlM (fun found ⟨name, _⟩ =>
      if _ : tree.isDirectory (Path.join directory name) then
        tree.walk extension (Path.join directory name) found
      else if Path.extension? name == some extension then
        .ok (found ++ [Path.join directory name])
      else .ok found) found
termination_by tree.depth - (tree.placeOf directory).length
decreasing_by exact deeper ‹_› ‹_› ‹_›

/-- The sources below those of some paths that are directories. -/
def sources (tree : FileTree) (directories : List Path) (extension : String) :
    Except (Path × FileFault) (List Path) := do
  let found ← directories.foldlM (fun found directory =>
    if tree.isDirectory directory then tree.walk extension directory found else .ok found) []
  return Path.sorted found

end Projection.FileTree
