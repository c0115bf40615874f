import Mathlib.Data.List.Infix
import Projection.FileTree
import Projection.Proofs.Success

/-!
# What changes in a file tree

`FileTree.Changes dirs files before after` says that `after` is `before` but for two kinds of
places: directories that were made where nothing stood, at places in `dirs`, and files that were
written where no directory stood, at places and with contents in `files`. Nothing disappears, and
directories stay directories, so changes one after the other are changes together (`Changes.trans`).

Making directories and writing a file are such changes, at places that the paths alone decide. A
file that was written is found by its path (`get_of_write`), and still is after changes at other
places (`Changes.get_eq_ok`).
-/

namespace Projection

namespace Listing

/-! ### On the way -/

/-- The places that are passed on the way from a place, its end among them. -/
def Passes (place : List String) (segments : List String) (other : List String) : Prop :=
  ∃ initial, initial <+: segments ∧ initial.foldl descend place = other

/-- The place is the one of the path, or one of a path above it. -/
def OnTheWay (l : Listing) (path : Path) (place : List String) : Prop :=
  Passes (l.start path) path.segments place

theorem Passes.cons {place other : List String} {segment : String} {rest : List String}
    (h : Passes (descend place segment) rest other) : Passes place (segment :: rest) other := by
  obtain ⟨initial, hinitial, rfl⟩ := h
  exact ⟨segment :: initial, List.cons_prefix_cons.mpr ⟨rfl, hinitial⟩, rfl⟩

theorem passes_descend (place : List String) (segment : String) (rest : List String) :
    Passes place (segment :: rest) (descend place segment) :=
  Passes.cons ⟨[], List.nil_prefix, rfl⟩

/-! ### Changes -/

/-- Directories may have been made at places in `dirs`, and files written as in `files`. -/
structure Changes (dirs : List String → Prop) (files : List String → ByteArray → Prop)
    (before after : Listing) : Prop where
  workingDir : after.workingDir = before.workingDir
  changed : ∀ place, after.find? place ≠ before.find? place →
    (before.find? place = none ∧ after.find? place = some .directory ∧ dirs place) ∨
      (before.find? place ≠ some .directory ∧
        ∃ content, after.find? place = some (.file content) ∧ files place content)

namespace Changes

variable {dirs dirs' : List String → Prop} {files files' : List String → ByteArray → Prop}
  {before between after : Listing}

theorem refl (l : Listing) : Changes dirs files l l :=
  ⟨rfl, fun _ h => absurd rfl h⟩

theorem mono (h : Changes dirs files before after) (hdirs : ∀ place, dirs place → dirs' place)
    (hfiles : ∀ place content, files place content → files' place content) :
    Changes dirs' files' before after := by
  refine ⟨h.workingDir, fun place hplace => ?_⟩
  rcases h.changed place hplace with ⟨hnone, hafter, hdir⟩ | ⟨hbefore, content, hafter, hfile⟩
  · exact .inl ⟨hnone, hafter, hdirs place hdir⟩
  · exact .inr ⟨hbefore, content, hafter, hfiles place content hfile⟩

/-- Where nothing stands, nothing stood. -/
theorem none_of_none (h : Changes dirs files before after) {place : List String}
    (hafter : after.find? place = none) : before.find? place = none := by
  by_cases hsame : after.find? place = before.find? place
  · rw [← hsame]
    exact hafter
  · rcases h.changed place hsame with ⟨hnone, _, _⟩ | ⟨_, content, hfile, _⟩
    · exact hnone
    · rw [hafter] at hfile
      cases hfile

/-- Where a directory stood, one stands. -/
theorem directory_of_directory (h : Changes dirs files before after) {place : List String}
    (hbefore : before.find? place = some .directory) : after.find? place = some .directory := by
  by_cases hsame : after.find? place = before.find? place
  · rw [hsame]
    exact hbefore
  · rcases h.changed place hsame with ⟨hnone, _, _⟩ | ⟨hother, _⟩
    · rw [hbefore] at hnone
      cases hnone
    · exact absurd hbefore hother

theorem trans (h : Changes dirs files before between) (h' : Changes dirs files between after) :
    Changes dirs files before after := by
  refine ⟨h'.workingDir.trans h.workingDir, fun place hplace => ?_⟩
  by_cases hsame : after.find? place = between.find? place
  · rw [hsame] at hplace ⊢
    exact h.changed place hplace
  · rcases h'.changed place hsame with ⟨hnone, hafter, hdir⟩ | ⟨hbetween, content, hafter, hfile⟩
    · exact .inl ⟨h.none_of_none hnone, hafter, hdir⟩
    · refine .inr ⟨fun hbefore => ?_, content, hafter, hfile⟩
      exact hbetween (h.directory_of_directory hbefore)

/-- The place of a path stays the same. -/
theorem placeOf_eq (h : Changes dirs files before after) (path : Path) :
    after.placeOf path = before.placeOf path := by
  rw [placeOf, placeOf, start, start, h.workingDir]

theorem onTheWay_iff (h : Changes dirs files before after) (path : Path) (place : List String) :
    after.OnTheWay path place ↔ before.OnTheWay path place := by
  rw [OnTheWay, OnTheWay, start, start, h.workingDir]

end Changes

/-! ### Single changes -/

theorem changes_insert_directory {dirs : List String → Prop}
    {files : List String → ByteArray → Prop} {l : Listing} {place : List String}
    (h : l.find? place = none) (hdirs : dirs place) :
    Changes dirs files l (l.insert place .directory) := by
  refine ⟨workingDir_insert .., fun other hother => ?_⟩
  by_cases heq : other = place
  · subst heq
    refine .inl ⟨h, find?_insert_self l .directory ?_, hdirs⟩
    rw [h]
    exact nofun
  · exact absurd (find?_insert_of_ne l .directory heq) hother

theorem changes_insert_file {dirs : List String → Prop} {files : List String → ByteArray → Prop}
    {l : Listing} {place : List String} {content : ByteArray}
    (h : l.find? place ≠ some .directory) (hfiles : files place content) :
    Changes dirs files l (l.insert place (.file content)) := by
  refine ⟨workingDir_insert .., fun other hother => ?_⟩
  by_cases heq : other = place
  · subst heq
    exact .inr ⟨h, content, find?_insert_self l (.file content) h, hfiles⟩
  · exact absurd (find?_insert_of_ne l (.file content) heq) hother

/-! ### Making directories and writing files -/

/-- Directories are made on the way, also when a file turns out to stand there. -/
theorem changes_makeDirsFrom {files : List String → ByteArray → Prop} (l : Listing)
    (place : List String) (made : Bool) (segments : List String) :
    Changes (Passes place segments) files l (l.makeDirsFrom place made segments).2 := by
  induction segments generalizing l place made with
  | nil => exact .refl l
  | cons segment rest ih =>
    -- What is passed after the first segment is passed from the start.
    have hlater : ∀ next, next = descend place segment → ∀ before made',
        Changes (Passes place (segment :: rest)) files before
          (before.makeDirsFrom next made' rest).2 := by
      rintro next rfl before made'
      exact (ih before _ made').mono (fun _ h => h.cons) fun _ _ h => h
    rw [makeDirsFrom]
    split
    · rename_i hhere
      exact hlater _ (by rw [descend, if_pos hhere]) _ _
    · rename_i hhere
      split
      · rename_i hup
        exact hlater _ (by rw [descend, if_neg hhere, if_pos hup]) _ _
      · rename_i hup
        have hnext : place ++ [segment] = descend place segment := by
          rw [descend, if_neg hhere, if_neg hup]
        split
        · rename_i hnone
          refine .trans (changes_insert_directory hnone ?_) (hlater _ hnext _ _)
          rw [hnext]
          exact passes_descend place segment rest
        · exact hlater _ hnext _ _
        · exact .refl l

theorem changes_makeDirs {files : List String → ByteArray → Prop} (l : Listing) (path : Path) :
    Changes (l.OnTheWay path) files l (l.makeDirs path).2 :=
  changes_makeDirsFrom l (l.start path) false path.segments

theorem changes_write {dirs : List String → Prop} {files : List String → ByteArray → Prop}
    {l after : Listing} {path : Path} {content : ByteArray}
    (h : l.write path content = .ok after) (hfiles : files (l.placeOf path) content) :
    Changes dirs files l after := by
  obtain ⟨place, hplace, h⟩ := bind_eq_ok.mp h
  rw [← locate_eq_ok hplace] at hfiles
  split at h
  · cases h
  · rename_i hother
    cases h
    exact changes_insert_file hother hfiles

/-! ### What stands at a path afterwards -/

namespace Changes

variable {dirs : List String → Prop} {files : List String → ByteArray → Prop}
  {before after : Listing}

/-- Paths that could be gone can still be gone, because directories stay. -/
theorem foldlM_step (h : Changes dirs files before after) {place last : List String}
    {segments : List String} (hsteps : segments.foldlM before.step place = .ok last) :
    segments.foldlM after.step place = .ok last := by
  induction segments generalizing place with
  | nil => exact hsteps
  | cons segment segments ih =>
    rw [List.foldlM_cons] at hsteps ⊢
    obtain ⟨next, hstep, hrest⟩ := bind_eq_ok.mp hsteps
    refine bind_eq_ok.mpr ⟨next, ?_, ih hrest⟩
    obtain ⟨hdirectory, hnext⟩ := step_eq_ok_iff.mp hstep
    exact step_eq_ok_iff.mpr ⟨h.directory_of_directory hdirectory, hnext⟩

theorem locate_eq_ok (h : Changes dirs files before after) {path : Path} {place : List String}
    (hlocate : before.locate path = .ok place) : after.locate path = .ok place := by
  unfold locate at hlocate ⊢
  split at hlocate
  · cases hlocate
  · rename_i hempty
    rw [if_neg hempty, start, h.workingDir]
    exact h.foldlM_step hlocate

/-- What stands at a path still stands there if nothing changed at its place. -/
theorem get_eq_ok (h : Changes dirs files before after) {path : Path} {node : Node}
    (hget : before.get path = .ok node)
    (hsame : after.find? (before.placeOf path) = before.find? (before.placeOf path)) :
    after.get path = .ok node := by
  obtain ⟨place, hlocate, hfind⟩ := get_eq_ok_iff.mp hget
  obtain rfl := Listing.locate_eq_ok hlocate
  exact get_eq_ok_iff.mpr ⟨_, h.locate_eq_ok hlocate, hsame.trans hfind⟩

end Changes

/-- A file that was written is there. -/
theorem get_of_write {l after : Listing} {path : Path} {content : ByteArray}
    (h : l.write path content = .ok after) : after.get path = .ok (.file content) := by
  have hchanges : Changes (fun _ => True) (fun _ _ => True) l after := changes_write h trivial
  obtain ⟨place, hplace, h⟩ := bind_eq_ok.mp h
  refine get_eq_ok_iff.mpr ⟨place, hchanges.locate_eq_ok hplace, ?_⟩
  split at h
  · cases h
  · rename_i hother
    cases h
    exact find?_insert_self l (.file content) hother

end Listing

namespace FileTree

/-- What changes in a tree. -/
abbrev Changes (dirs : List String → Prop) (files : List String → ByteArray → Prop)
    (before after : FileTree) : Prop :=
  Listing.Changes dirs files before.toListing after.toListing

theorem write_eq_ok {tree after : FileTree} {path : Path} {content : ByteArray}
    (h : tree.write path content = .ok after) :
    tree.toListing.write path content = .ok after.toListing := by
  unfold write at h
  split at h
  · rename_i hwrite
    cases h
    exact hwrite
  · cases h

theorem changes_makeDirs {files : List String → ByteArray → Prop} (tree : FileTree) (path : Path) :
    Changes (tree.OnTheWay path) files tree (tree.makeDirs path).2 :=
  Listing.changes_makeDirs tree.toListing path

theorem changes_write {dirs : List String → Prop} {files : List String → ByteArray → Prop}
    {tree after : FileTree} {path : Path} {content : ByteArray}
    (h : tree.write path content = .ok after) (hfiles : files (tree.placeOf path) content) :
    Changes dirs files tree after :=
  Listing.changes_write (write_eq_ok h) hfiles

/-- A file that was written is there. -/
theorem get_of_write {tree after : FileTree} {path : Path} {content : ByteArray}
    (h : tree.write path content = .ok after) : after.get path = .ok (.file content) :=
  Listing.get_of_write (write_eq_ok h)

end FileTree

end Projection
