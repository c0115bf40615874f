import Projection.Discovery
import Projection.Proofs.FileTree.Changes
import Projection.Proofs.Path.Sorting

/-!
# Discovery is exact

`FileTree.HasSource` says what a source below a directory is: the directory is there, names lead
from it to a file, and the last of them has the extension. `FileTree.sources` finds the paths of all
sources below some directories, and no others, in strictly increasing order
(`FileTree.sources_exact`). How often and in which order directories are given does not count, nor
in which order a directory shows what it holds.
-/

namespace Projection

/-! ### Names and paths -/

namespace Path

/-- The name ends in a dot and the extension, and does not start with that dot. -/
def HasExtension (name extension : String) : Prop :=
  ∃ stem, stem ≠ "" ∧ name = stem ++ "." ++ extension ∧ '.' ∉ extension.toList

theorem hasExtension_of_extension? {name extension : String}
    (h : extension? name = some extension) : HasExtension name extension := by
  unfold extension? at h
  dsimp only at h
  -- The name backwards is what follows the last dot, and then that dot with all before it.
  obtain ⟨rest, hname⟩ : name.toList.reverse.takeWhile (· != '.') <+: name.toList.reverse :=
    List.takeWhile_prefix _
  have hdot : '.' ∉ name.toList.reverse.takeWhile (· != '.') := fun hmem => by
    simpa using List.all_eq_true.mp List.all_takeWhile _ hmem
  generalize name.toList.reverse.takeWhile (· != '.') = tail at hname hdot h
  rw [← hname, List.drop_left] at h
  split at h
  · rename_i c more
    cases h
    have hchars : name.toList = (tail ++ '.' :: c :: more).reverse := by
      rw [hname, List.reverse_reverse]
    refine ⟨String.ofList (c :: more).reverse, by simp, String.toList_injective ?_, by simpa⟩
    simp [hchars]
  · cases h

theorem HasExtension.extension?_eq {name extension : String} (h : HasExtension name extension) :
    extension? name = some extension := by
  obtain ⟨stem, hstem, rfl, hdot⟩ := h
  have hreversed : (stem ++ "." ++ extension).toList.reverse =
      extension.toList.reverse ++ '.' :: stem.toList.reverse := by simp
  have htail : (extension.toList.reverse ++ '.' :: stem.toList.reverse).takeWhile (· != '.') =
      extension.toList.reverse := by
    rw [List.takeWhile_append_of_pos, List.takeWhile_cons_of_neg (by simp), List.append_nil]
    intro c hc
    have hne : c ≠ '.' := fun heq => hdot (heq ▸ List.mem_reverse.mp hc)
    simpa using hne
  obtain ⟨c, more, hmore⟩ : ∃ c more, stem.toList.reverse = c :: more :=
    List.exists_cons_of_ne_nil (by simpa using hstem)
  unfold extension?
  dsimp only
  rw [hreversed, htail, List.drop_left, hmore]
  simp

theorem extension?_eq_some_iff {name extension : String} :
    extension? name = some extension ↔ HasExtension name extension :=
  ⟨hasExtension_of_extension?, HasExtension.extension?_eq⟩

/-- Plain names that are joined to a path are its last components. -/
theorem components_foldl_join (path : Path) {rest : List String}
    (h : ∀ name ∈ rest, IsPlain name) :
    (rest.foldl join path).components = path.components ++ rest.map .name := by
  induction rest generalizing path with
  | nil => exact (List.append_nil _).symm
  | cons name rest ih =>
    obtain ⟨hname, hrest⟩ := List.forall_mem_cons.mp h
    rw [List.foldl_cons, ih _ hrest, components_join path hname, List.map_cons, List.append_assoc,
      List.singleton_append]

end Path

namespace FileTree

variable {tree tree' : FileTree} {extension : String} {directory : Path} {name : String}

/-! ### Sources below a directory -/

/-- The names lead from a directory to a file, from directory to directory. -/
inductive HoldsFile (tree : FileTree) : List String → List String → Prop
  | file {place : List String} {name : String} {content : ByteArray} :
      tree.find? (place ++ [name]) = some (.file content) → tree.HoldsFile place [name]
  | directory {place rest : List String} {name : String} :
      tree.find? (place ++ [name]) = some .directory → tree.HoldsFile (place ++ [name]) rest →
      tree.HoldsFile place (name :: rest)

/-- Below the directory there is a file with the extension, and `rest` are the names on the way. -/
structure HasSource (tree : FileTree) (extension : String) (directory : Path)
    (rest : List String) : Prop where
  exists_directory : tree.get directory = .ok .directory
  leads : tree.HoldsFile (tree.placeOf directory) rest
  ends : ∃ name, rest.getLast? = some name ∧ Path.HasExtension name extension

theorem HoldsFile.ne_nil {place rest : List String} (h : tree.HoldsFile place rest) :
    rest ≠ [] := by
  cases h <;> exact List.cons_ne_nil _ _

theorem HoldsFile.plain {place rest : List String} (h : tree.HoldsFile place rest) :
    ∀ name ∈ rest, Path.IsPlain name := by
  induction h with
  | file hfile =>
    exact List.forall_mem_singleton.mpr (tree.isTree.plain_of_find? hfile _ (by simp))
  | directory hdirectory _ ih =>
    exact List.forall_mem_cons.mpr ⟨tree.isTree.plain_of_find? hdirectory _ (by simp), ih⟩

/-- The names below a directory are plain, so a path gets one component more for each of them. -/
theorem HasSource.components_eq {rest : List String}
    (h : tree.HasSource extension directory rest) :
    (rest.foldl Path.join directory).components = directory.components ++ rest.map .name :=
  Path.components_foldl_join directory h.leads.plain

/-! ### Looking into a directory -/

theorem locate_join {place : List String} (h : tree.locate directory = .ok place)
    (hfind : tree.find? place = some .directory) (hname : Path.IsPlain name) :
    tree.locate (Path.join directory name) = .ok (place ++ [name]) := by
  obtain ⟨stem, hsegments, hjoin⟩ := Path.exists_stem directory
  have hstem : stem.foldlM tree.step (tree.start directory) = .ok place := by
    unfold Listing.locate at h
    split at h
    · cases h
    · rcases hsegments with hsegments | hsegments
      · rw [hsegments] at h
        exact h
      · -- An empty segment stays where the stem led.
        rw [hsegments, List.foldlM_append] at h
        obtain ⟨last, hlast, hstep⟩ := bind_eq_ok.mp h
        rw [List.foldlM_cons] at hstep
        obtain ⟨next, hstep, hdone⟩ := bind_eq_ok.mp hstep
        obtain ⟨_, rfl⟩ := Listing.step_eq_ok_iff.mp hstep
        cases hdone
        exact hlast
  have hempty : ¬(Path.join directory name).isEmpty = true := by
    intro hempty
    have hcomponents := Path.components_join directory hname
    rw [String.isEmpty_iff.mp hempty] at hcomponents
    exact List.append_ne_nil_of_right_ne_nil _ (List.cons_ne_nil _ _) hcomponents.symm
  have hstart : tree.start (Path.join directory name) = tree.start directory := by
    rw [Listing.start, Listing.start, Path.isAbsolute_join directory hname.noSlash]
  rw [Listing.locate, if_neg hempty, hjoin name hname.noSlash, hstart, List.foldlM_append]
  refine bind_eq_ok.mpr ⟨place, hstem, ?_⟩
  rw [List.foldlM_cons]
  refine bind_eq_ok.mpr ⟨place ++ [name], ?_, rfl⟩
  exact Listing.step_eq_ok_iff.mpr ⟨hfind, Listing.descend_of_isPlain hname place⟩

/-- A path in a directory leads to what stands in the directory under its last name. -/
theorem get_join (h : tree.get directory = .ok .directory) (hname : Path.IsPlain name)
    {node : Node} :
    tree.get (Path.join directory name) = .ok node ↔
      tree.find? (tree.placeOf directory ++ [name]) = some node := by
  obtain ⟨place, hlocate, hfind⟩ := Listing.get_eq_ok_iff.mp h
  rw [Listing.get_eq_ok_iff, locate_join hlocate hfind hname, ← Listing.locate_eq_ok hlocate]
  simp

/-! ### Walking -/

/-- Looks at one name in a directory. -/
def visit (tree : FileTree) (extension : String) (directory : Path) (found : List Path)
    (name : String) : Except (Path × FileFault) (List Path) :=
  if tree.isDirectory (Path.join directory name) then
    tree.walk extension (Path.join directory name) found
  else if Path.extension? name == some extension then .ok (found ++ [Path.join directory name])
  else .ok found

/-- A directory is walked name by name. -/
theorem walk_of_get (h : tree.get directory = .ok .directory) (found : List Path) :
    tree.walk extension directory found =
      (tree.namesIn (tree.placeOf directory)).foldlM (tree.visit extension directory) found := by
  have hread := Listing.readDir_eq_ok_iff.mpr ⟨h, rfl⟩
  rw [walk]
  split
  · rename_i hfault
    cases hfault.symm.trans hread
  · rename_i names hnames
    obtain rfl : names = _ := Except.ok.inj (hnames.symm.trans hread)
    rw [List.foldlM_subtype (g := tree.visit extension directory), List.unattach_attach]
    intro found name hname
    rfl

/-- The path is that of a source below the directory. -/
def Finds (tree : FileTree) (extension : String) (directory path : Path) : Prop :=
  ∃ rest, tree.HasSource extension directory rest ∧ path = rest.foldl Path.join directory

section Cons

variable {rest : List String} (h : tree.get directory = .ok .directory)
include h

theorem hasSource_cons_of_directory (hname : Path.IsPlain name)
    (hdirectory : tree.find? (tree.placeOf directory ++ [name]) = some .directory) :
    tree.HasSource extension directory (name :: rest) ↔
      tree.HasSource extension (Path.join directory name) rest := by
  have hget := (get_join h hname).mpr hdirectory
  have hplace := tree.placeOf_join directory hname
  constructor
  · rintro ⟨_, hleads, hends⟩
    cases hleads with
    | file hfile => cases hdirectory.symm.trans hfile
    | directory _ hleads =>
      refine ⟨hget, hplace ▸ hleads, ?_⟩
      rw [List.getLast?_cons_of_ne_nil hleads.ne_nil] at hends
      exact hends
  · rintro ⟨_, hleads, hends⟩
    refine ⟨h, .directory hdirectory (hplace ▸ hleads), ?_⟩
    rw [List.getLast?_cons_of_ne_nil hleads.ne_nil]
    exact hends

theorem hasSource_cons_of_file {content : ByteArray}
    (hfile : tree.find? (tree.placeOf directory ++ [name]) = some (.file content)) :
    tree.HasSource extension directory (name :: rest) ↔
      rest = [] ∧ Path.HasExtension name extension := by
  constructor
  · rintro ⟨_, hleads, other, hlast, hends⟩
    cases hleads with
    | file _ =>
      cases hlast
      exact ⟨rfl, hends⟩
    | directory hdirectory _ => cases hfile.symm.trans hdirectory
  · rintro ⟨rfl, hends⟩
    exact ⟨h, .file hfile, name, rfl, hends⟩

end Cons

/-- One name in a directory gives the sources under it, if a walk below it does. -/
theorem visit_finds (h : tree.get directory = .ok .directory)
    (hname : name ∈ tree.namesIn (tree.placeOf directory))
    (hwalk : tree.isDirectory (Path.join directory name) = true → ∀ found, ∃ more,
      tree.walk extension (Path.join directory name) found = .ok (found ++ more) ∧
        ∀ path, path ∈ more ↔ tree.Finds extension (Path.join directory name) path)
    (found : List Path) :
    ∃ more, tree.visit extension directory found name = .ok (found ++ more) ∧
      ∀ path, path ∈ more ↔ ∃ rest, tree.HasSource extension directory (name :: rest) ∧
        path = rest.foldl Path.join (Path.join directory name) := by
  have hplain := tree.isTree.plain_of_mem_namesIn hname
  obtain ⟨node, hnode⟩ := tree.isTree.mem_namesIn_iff.mp hname
  have hget := (get_join h hplain).mpr hnode
  unfold visit
  cases node with
  | directory =>
    -- whatever its extension is, only what is below it counts
    have hdirectory := Listing.isDirectory_iff.mpr hget
    rw [if_pos hdirectory]
    simp only [hasSource_cons_of_directory h hplain hnode]
    exact hwalk hdirectory found
  | file content =>
    have hfile : ¬tree.isDirectory (Path.join directory name) = true := by
      rw [Listing.isDirectory_iff, hget]
      exact nofun
    rw [if_neg hfile]
    simp only [hasSource_cons_of_file h hnode, ← Path.extension?_eq_some_iff]
    split
    · rename_i hends
      exact ⟨[Path.join directory name], rfl, by simp [eq_of_beq hends]⟩
    · rename_i hends
      exact ⟨[], by simp, by simp [mt beq_iff_eq.mpr hends]⟩

/-- A walk finds exactly the sources below the directory. The induction is on how deep the tree is
below the directory. -/
theorem walk_finds (h : tree.get directory = .ok .directory) (found : List Path) :
    ∃ more, tree.walk extension directory found = .ok (found ++ more) ∧
      ∀ path, path ∈ more ↔ tree.Finds extension directory path := by
  induction hdepth : tree.depth - (tree.placeOf directory).length using Nat.strongRecOn
    generalizing directory found with
  | _ depth ih =>
    subst hdepth
    have hread := Listing.readDir_eq_ok_iff.mpr ⟨h, rfl⟩
    obtain ⟨more, hmore, hiff⟩ := foldlM_collects (fun name hname =>
      visit_finds h hname fun hdirectory found => ih _ (deeper hread hname hdirectory)
        (Listing.isDirectory_iff.mp hdirectory) found rfl) found
    refine ⟨more, (walk_of_get h found).trans hmore, fun path => (hiff path).trans ?_⟩
    constructor
    · rintro ⟨name, _, rest, hsource, rfl⟩
      exact ⟨name :: rest, hsource, rfl⟩
    · rintro ⟨rest, hsource, rfl⟩
      cases hsource.leads with
      | file hfile => exact ⟨_, tree.isTree.mem_namesIn_iff.mpr ⟨_, hfile⟩, _, hsource, rfl⟩
      | directory hdirectory _ =>
        exact ⟨_, tree.isTree.mem_namesIn_iff.mpr ⟨_, hdirectory⟩, _, hsource, rfl⟩

/-- All directories are walked, and nothing else is. -/
theorem exists_found (tree : FileTree) (directories : List Path) (extension : String) :
    ∃ found, tree.sources directories extension = .ok (Path.sorted found) ∧
      ∀ path, path ∈ found ↔ ∃ directory ∈ directories, tree.Finds extension directory path := by
  have hstep (directory : Path) (before : List Path) : ∃ more,
      (if tree.isDirectory directory then tree.walk extension directory before else .ok before) =
        .ok (before ++ more) ∧ ∀ path, path ∈ more ↔ tree.Finds extension directory path := by
    split
    · rename_i hdirectory
      exact walk_finds (Listing.isDirectory_iff.mp hdirectory) before
    · rename_i hother
      refine ⟨[], by simp, fun path => ⟨nofun, ?_⟩⟩
      rintro ⟨rest, hsource, _⟩
      exact absurd (Listing.isDirectory_iff.mpr hsource.exists_directory) hother
  obtain ⟨found, hfound, hiff⟩ := foldlM_collects (fun directory _ => hstep directory) []
  exact ⟨found, bind_eq_ok.mpr ⟨found, hfound, rfl⟩, hiff⟩

/-- The places that are found are those of the sources. -/
theorem mem_components_found_iff {found directories : List Path}
    (h : ∀ path, path ∈ found ↔ ∃ directory ∈ directories, tree.Finds extension directory path)
    (c : List Component) :
    c ∈ found.map Path.components ↔
      ∃ directory ∈ directories, ∃ rest, tree.HasSource extension directory rest ∧
        c = directory.components ++ rest.map .name := by
  rw [List.mem_map]
  constructor
  · rintro ⟨path, hpath, rfl⟩
    obtain ⟨directory, hdirectory, rest, hsource, rfl⟩ := (h path).mp hpath
    exact ⟨directory, hdirectory, rest, hsource, hsource.components_eq⟩
  · rintro ⟨directory, hdirectory, rest, hsource, rfl⟩
    refine ⟨rest.foldl Path.join directory, (h _).mpr ?_, hsource.components_eq⟩
    exact ⟨directory, hdirectory, rest, hsource, rfl⟩

/-! ### The order of the nodes -/

/-- Trees in which the same is found. -/
structure Agree (tree tree' : FileTree) : Prop where
  workingDir : tree'.workingDir = tree.workingDir
  find? : ∀ place, tree'.find? place = tree.find? place

namespace Agree

/-- What is found does not depend on the order in which nodes are listed. -/
theorem of_perm (hdir : tree'.workingDir = tree.workingDir)
    (hnodes : tree'.nodes.Perm tree.nodes) : Agree tree tree' := by
  refine ⟨hdir, fun place => Option.ext fun node => ?_⟩
  rw [tree'.isTree.find?_eq_some_iff, tree.isTree.find?_eq_some_iff, hdir, hnodes.mem_iff]

theorem symm (h : Agree tree tree') : Agree tree' tree :=
  ⟨h.workingDir.symm, fun place => (h.find? place).symm⟩

theorem get_eq (h : Agree tree tree') (path : Path) : tree'.get path = tree.get path := by
  have hstep : tree'.step = tree.step := by
    funext place segment
    rw [Listing.step, Listing.step, h.find?]
  simp only [Listing.get, Listing.locate, Listing.start, h.workingDir, hstep, h.find?]

theorem holdsFile (h : Agree tree tree') {place rest : List String}
    (hholds : tree.HoldsFile place rest) : tree'.HoldsFile place rest := by
  induction hholds with
  | file hfile => exact .file ((h.find? _).trans hfile)
  | directory hdirectory _ ih => exact .directory ((h.find? _).trans hdirectory) ih

theorem hasSource (h : Agree tree tree') {rest : List String}
    (hsource : tree.HasSource extension directory rest) :
    tree'.HasSource extension directory rest := by
  have hplace : tree'.placeOf directory = tree.placeOf directory := by
    rw [Listing.placeOf, Listing.placeOf, Listing.start, Listing.start, h.workingDir]
  refine ⟨(h.get_eq directory).trans hsource.exists_directory, ?_, hsource.ends⟩
  rw [hplace]
  exact h.holdsFile hsource.leads

end Agree

/-- **Discovery finds exactly the sources below some directories, each place once, in order.** It
does not fail. The paths that are found increase strictly; their places are those of the sources
below the directories that are there; each is written as its directory with the names on the way
joined to it. So the same places are found, in the same order, if directories are given in another
order or more than once, and if what a directory holds is listed in another order. -/
theorem sources_exact (tree : FileTree) (directories : List Path) (extension : String) :
    ∃ sources, tree.sources directories extension = .ok sources ∧
    sources.Pairwise Path.Before ∧
    (∀ path : Path, (∃ found ∈ sources, found.components = path.components) ↔
      ∃ directory ∈ directories, ∃ rest, tree.HasSource extension directory rest ∧
        path.components = directory.components ++ rest.map .name) ∧
    (∀ found ∈ sources,
      ∃ directory ∈ directories, ∃ rest, tree.HasSource extension directory rest ∧
        found = rest.foldl Path.join directory) ∧
    ∀ (tree' : FileTree) (directories' : List Path), tree'.workingDir = tree.workingDir →
      tree'.nodes.Perm tree.nodes → (∀ d, d ∈ directories' ↔ d ∈ directories) →
      ∃ sources', tree'.sources directories' extension = .ok sources' ∧
        sources'.map Path.components = sources.map Path.components := by
  obtain ⟨found, hfound, hiff⟩ := tree.exists_found directories extension
  refine ⟨_, hfound, Path.pairwise_sorted _, fun path => ?_, fun path hpath => ?_,
    fun tree' directories' hdir hnodes hdirectories => ?_⟩
  · rw [← mem_components_found_iff hiff, ← Path.mem_components_sorted, List.mem_map]
  · exact (hiff path).mp (Path.mem_of_mem_sorted hpath)
  · have hagree := Agree.of_perm hdir hnodes
    obtain ⟨found', hfound', hiff'⟩ := tree'.exists_found directories' extension
    refine ⟨_, hfound', Path.components_sorted_eq fun c => ?_⟩
    rw [mem_components_found_iff hiff', mem_components_found_iff hiff]
    constructor
    · rintro ⟨directory, hdirectory, rest, hsource, rfl⟩
      exact ⟨directory, (hdirectories directory).mp hdirectory, rest, hagree.symm.hasSource hsource,
        rfl⟩
    · rintro ⟨directory, hdirectory, rest, hsource, rfl⟩
      exact ⟨directory, (hdirectories directory).mpr hdirectory, rest, hagree.hasSource hsource,
        rfl⟩

end FileTree

/-! ### An example

A directory has the name of a source, and holds one. A hidden file has no extension. -/

namespace Archive

def tree : FileTree where
  workingDir := ["home"]
  nodes := [(["home", "dto"], .directory), (["home", "dto", "hr"], .directory),
    (["home", "dto", "hr", "Employee.dto"], .file .empty),
    (["home", "dto", "Department.dto"], .file .empty), (["home", "dto", ".dto"], .file .empty),
    (["home", "dto", "old.dto"], .directory),
    (["home", "dto", "old.dto", "Badge.dto"], .file .empty),
    (["home", "dto", "old.dto", "notes.txt"], .file .empty)]

/-- The directories are given as `dto` with one inside it, and one that is not there. -/
def directories : List Path :=
  ["dto", "attic", "dto//hr"]

/-- The same files, listed the other way round. -/
def reversed : FileTree where
  workingDir := tree.workingDir
  nodes := tree.nodes.reverse

theorem sources_eq : tree.sources directories "dto" =
    .ok ["dto/Department.dto", "dto/hr/Employee.dto", "dto/old.dto/Badge.dto"] := by
  have hfound : directories.foldlM (fun found directory =>
      if tree.isDirectory directory then tree.walk "dto" directory found else .ok found) [] =
      .ok ["dto/hr/Employee.dto", "dto/Department.dto", "dto/old.dto/Badge.dto",
        "dto//hr/Employee.dto"] := by
    decide +kernel
  have hmoved : Path.order "dto/hr/Employee.dto" "dto/Department.dto" = .gt := by decide +kernel
  have hlast : Path.order "dto/old.dto/Badge.dto" "dto//hr/Employee.dto" = .gt := by decide +kernel
  have hfirst : Path.order "dto/Department.dto" "dto//hr/Employee.dto" = .lt := by decide +kernel
  have hsame : Path.order "dto/hr/Employee.dto" "dto//hr/Employee.dto" = .eq := by decide +kernel
  have hdistinct : Path.order "dto/Department.dto" "dto/hr/Employee.dto" = .lt := by decide +kernel
  have hother : Path.order "dto/hr/Employee.dto" "dto/old.dto/Badge.dto" = .lt := by decide +kernel
  refine bind_eq_ok.mpr ⟨_, hfound, ?_⟩
  simp [Path.sorted, Path.dedup, Path.dedupAfter, List.mergeSort,
    List.MergeSort.Internal.splitInTwo, hmoved, hlast, hfirst, hsame, hdistinct, hother, pure,
    Except.pure]

theorem archive_is_searched :
    tree.sources directories "dto" =
        .ok ["dto/Department.dto", "dto/hr/Employee.dto", "dto/old.dto/Badge.dto"] ∧
      (∃ directory ∈ directories, ∃ rest, tree.HasSource "dto" directory rest ∧
        Path.components "dto/hr/Employee.dto" = directory.components ++ rest.map .name) ∧
      (¬ ∃ directory ∈ directories, ∃ rest, tree.HasSource "dto" directory rest ∧
        Path.components "dto/.dto" = directory.components ++ rest.map .name) ∧
      ∃ sources, reversed.sources ["dto//hr", "dto", "attic", "dto"] "dto" = .ok sources ∧
        sources.map Path.components = [[.name "dto", .name "Department.dto"],
          [.name "dto", .name "hr", .name "Employee.dto"],
          [.name "dto", .name "old.dto", .name "Badge.dto"]] := by
  obtain ⟨sources, hsources, _, hiff, _, horder⟩ := FileTree.sources_exact tree directories "dto"
  obtain rfl := Except.ok.inj (hsources.symm.trans sources_eq)
  refine ⟨sources_eq, (hiff _).mp ⟨"dto/hr/Employee.dto", by simp, rfl⟩, ?_, ?_⟩
  · rw [← hiff]
    decide +kernel
  · refine horder reversed _ rfl (List.reverse_perm tree.nodes) ?_
    simp [directories, or_comm, or_left_comm]

end Archive

end Projection
