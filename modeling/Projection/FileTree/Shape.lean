import Projection.Binding
import Projection.FileTree.Listing
import Projection.Path.Segments

/-!
# Listings that make a tree

`Listing.IsTree` says that the places of a listing make a tree: each is listed once and stands in a
directory, and all names on the way are plain. A listing without nodes is a tree, and one stays a
tree when directories are made and files are written.
-/

namespace Projection.Listing

/-- The nodes make a tree. -/
structure IsTree (l : Listing) : Prop where
  /-- No place is listed twice. -/
  distinct : (l.nodes.map (·.1)).Nodup
  /-- The working directory is there without being listed. -/
  outside : ∀ n ∈ l.nodes, ¬ n.1 <+: l.workingDir
  parent : ∀ n ∈ l.nodes, l.find? n.1.dropLast = some .directory
  plain : ∀ n ∈ l.nodes, ∀ name ∈ n.1, Path.IsPlain name
  plain_workingDir : ∀ name ∈ l.workingDir, Path.IsPlain name

instance (l : Listing) : Decidable l.IsTree :=
  decidable_of_iff
    ((l.nodes.map (·.1)).Nodup ∧ (∀ n ∈ l.nodes, ¬ n.1 <+: l.workingDir) ∧
      (∀ n ∈ l.nodes, l.find? n.1.dropLast = some .directory) ∧
      (∀ n ∈ l.nodes, ∀ name ∈ n.1, Path.IsPlain name) ∧
      ∀ name ∈ l.workingDir, Path.IsPlain name)
    ⟨fun ⟨distinct, outside, parent, plain, workingDir⟩ =>
        ⟨distinct, outside, parent, plain, workingDir⟩,
      fun ⟨distinct, outside, parent, plain, workingDir⟩ =>
        ⟨distinct, outside, parent, plain, workingDir⟩⟩

variable {l : Listing} {place : List String}

/-! ### Places of paths -/

/-- A plain name leads one place down. -/
theorem descend_of_isPlain {name : String} (h : Path.IsPlain name) (place : List String) :
    descend place name = place ++ [name] := by
  simp [descend, h.ne_empty, h.ne_here, h.ne_parent]

/-- A plain name that is joined to a path leads one place down. -/
theorem placeOf_join (l : Listing) (path : Path) {name : String} (h : Path.IsPlain name) :
    l.placeOf (Path.join path name) = l.placeOf path ++ [name] := by
  obtain ⟨stem, hpath, hjoin⟩ := Path.exists_stem path
  have hstart : l.start (Path.join path name) = l.start path := by
    rw [start, start, Path.isAbsolute_join path h.noSlash]
  have hplace : path.segments.foldl descend (l.start path) =
      stem.foldl descend (l.start path) := by
    rcases hpath with hpath | hpath
    · rw [hpath]
    · rw [hpath, List.foldl_append]
      rfl
  rw [placeOf, placeOf, hstart, hjoin name h.noSlash, List.foldl_append, ← hplace]
  exact descend_of_isPlain h _

theorem step_eq_ok_iff {next : List String} {segment : String} :
    l.step place segment = .ok next ↔
      l.find? place = some .directory ∧ descend place segment = next := by
  unfold step
  split <;> simp [*]

theorem foldlM_step_eq_ok {last : List String} {segments : List String}
    (h : segments.foldlM l.step place = .ok last) : last = segments.foldl descend place := by
  induction segments generalizing place with
  | nil =>
    cases h
    rfl
  | cons segment segments ih =>
    rw [List.foldlM_cons] at h
    obtain ⟨next, hstep, hrest⟩ := bind_eq_ok.mp h
    rw [List.foldl_cons, (step_eq_ok_iff.mp hstep).2]
    exact ih hrest

/-- A path is located at its place, if at all. -/
theorem locate_eq_ok {path : Path} (h : l.locate path = .ok place) : place = l.placeOf path := by
  unfold locate at h
  split at h
  · cases h
  · exact foldlM_step_eq_ok h

/-! ### What is found -/

theorem find?_above_workingDir (h : place <+: l.workingDir) : l.find? place = some .directory := by
  rw [find?, if_pos (List.isPrefixOf_iff_prefix.mpr h)]

theorem find?_start (l : Listing) (path : Path) : l.find? (l.start path) = some .directory := by
  rw [start]
  split
  · exact find?_above_workingDir List.nil_prefix
  · exact find?_above_workingDir (List.prefix_refl _)

theorem mem_of_find? {node : Node} (h : l.find? place = some node) :
    (place <+: l.workingDir ∧ node = .directory) ∨ (place, node) ∈ l.nodes := by
  unfold find? at h
  split at h
  · rename_i hinitial
    cases h
    exact .inl ⟨List.isPrefixOf_iff_prefix.mp hinitial, rfl⟩
  · obtain ⟨n, hn, rfl⟩ := Option.map_eq_some_iff.mp h
    have hplace : n.1 = place := by simpa using List.find?_some hn
    exact .inr (hplace ▸ List.mem_of_find?_eq_some hn)

theorem find?_place_of_mem {nodes : List (List String × Node)} (h : (nodes.map (·.1)).Nodup)
    {n : List String × Node} (hn : n ∈ nodes) : nodes.find? (·.1 == n.1) = some n := by
  induction nodes with
  | nil => cases hn
  | cons first nodes ih =>
    obtain ⟨hfirst, hnodes⟩ := List.nodup_cons.mp h
    rcases List.mem_cons.mp hn with rfl | hn
    · exact List.find?_cons_of_pos (beq_self_eq_true n.1)
    · have hne : first.1 ≠ n.1 := fun heq => hfirst (List.mem_map.mpr ⟨n, hn, heq.symm⟩)
      rw [List.find?_cons_of_neg (by simpa using hne)]
      exact ih hnodes hn

namespace IsTree

theorem find?_eq_some_iff (h : l.IsTree) {node : Node} :
    l.find? place = some node ↔
      (place <+: l.workingDir ∧ node = .directory) ∨ (place, node) ∈ l.nodes := by
  refine ⟨mem_of_find?, ?_⟩
  rintro (⟨hinitial, rfl⟩ | hmem)
  · exact find?_above_workingDir hinitial
  · have hout : ¬place.isPrefixOf l.workingDir = true :=
      fun hinitial => h.outside _ hmem (List.isPrefixOf_iff_prefix.mp hinitial)
    rw [find?, if_neg hout, find?_place_of_mem h.distinct hmem]
    rfl

/-- All that is found stands in a directory. -/
theorem parent_of_find? (h : l.IsTree) {node : Node} (hfind : l.find? place = some node) :
    l.find? place.dropLast = some .directory := by
  rcases mem_of_find? hfind with ⟨hinitial, _⟩ | hmem
  · exact find?_above_workingDir ((List.dropLast_prefix place).trans hinitial)
  · exact h.parent _ hmem

theorem plain_of_find? (h : l.IsTree) {node : Node} (hfind : l.find? place = some node) :
    ∀ name ∈ place, Path.IsPlain name := by
  rcases mem_of_find? hfind with ⟨hinitial, _⟩ | hmem
  · exact fun name hname => h.plain_workingDir name (hinitial.subset hname)
  · exact h.plain _ hmem

end IsTree

/-! ### Names in a directory -/

theorem get_eq_ok_iff {path : Path} {node : Node} :
    l.get path = .ok node ↔ ∃ place, l.locate path = .ok place ∧ l.find? place = some node := by
  rw [get, bind_eq_ok]
  refine exists_congr fun place => and_congr_right fun _ => ?_
  cases l.find? place with
  | none => simp
  | some other => simp

theorem find?_of_get {path : Path} {node : Node} (h : l.get path = .ok node) :
    l.find? (l.placeOf path) = some node := by
  obtain ⟨place, hlocate, hfind⟩ := get_eq_ok_iff.mp h
  rw [← locate_eq_ok hlocate]
  exact hfind

theorem isDirectory_iff {path : Path} :
    l.isDirectory path = true ↔ l.get path = .ok .directory := by
  unfold isDirectory
  split <;> simp_all

/-- A directory can be read, and nothing else. -/
theorem readDir_eq_ok_iff {path : Path} {names : List String} :
    l.readDir path = .ok names ↔
      l.get path = .ok .directory ∧ names = l.namesIn (l.placeOf path) := by
  rw [readDir, bind_eq_ok, get_eq_ok_iff]
  constructor
  · rintro ⟨place, hlocate, hread⟩
    split at hread
    · cases hread
    · cases hread
    · rename_i hfind
      cases hread
      exact ⟨⟨place, hlocate, hfind⟩, by rw [← locate_eq_ok hlocate]⟩
  · rintro ⟨⟨place, hlocate, hfind⟩, rfl⟩
    refine ⟨place, hlocate, ?_⟩
    rw [hfind, locate_eq_ok hlocate]

theorem mem_namesIn_iff {name : String} :
    name ∈ l.namesIn place ↔
      place ++ [name] <+: l.workingDir ∨ ∃ node, (place ++ [name], node) ∈ l.nodes := by
  have hnext : name ∈ (if place.isPrefixOf l.workingDir then
      (l.workingDir.drop place.length).head?.toList else []) ↔
      place ++ [name] <+: l.workingDir := by
    constructor
    · intro hname
      split at hname
      · rename_i hinitial
        obtain ⟨rest, hrest⟩ := List.isPrefixOf_iff_prefix.mp hinitial
        rw [← hrest, List.drop_left, Option.mem_toList] at hname
        obtain ⟨more, rfl⟩ := List.head?_eq_some_iff.mp hname
        exact ⟨more, by rw [← hrest, List.append_assoc, List.singleton_append]⟩
      · cases hname
    · rintro ⟨more, hmore⟩
      rw [List.append_assoc, List.singleton_append] at hmore
      rw [if_pos (List.isPrefixOf_iff_prefix.mpr ⟨_, hmore⟩), ← hmore, List.drop_left]
      simp
  have hlisted : (name ∈ l.nodes.filterMap fun n =>
        if n.1.dropLast == place then n.1.getLast? else none) ↔
      ∃ node, (place ++ [name], node) ∈ l.nodes := by
    rw [List.mem_filterMap]
    constructor
    · rintro ⟨⟨other, node⟩, hn, hname⟩
      dsimp only at hname
      split at hname
      · rename_i hparent
        obtain ⟨parent, rfl⟩ := List.getLast?_eq_some_iff.mp hname
        rw [List.dropLast_concat, beq_iff_eq] at hparent
        exact ⟨node, hparent ▸ hn⟩
      · cases hname
    · rintro ⟨node, hn⟩
      exact ⟨_, hn, by simp⟩
  rw [namesIn, List.mem_append, hnext, hlisted]

namespace IsTree

/-- A directory holds the names under which something is found in it. -/
theorem mem_namesIn_iff (h : l.IsTree) {name : String} :
    name ∈ l.namesIn place ↔ ∃ node, l.find? (place ++ [name]) = some node := by
  rw [Listing.mem_namesIn_iff]
  constructor
  · rintro (hinitial | ⟨node, hn⟩)
    · exact ⟨.directory, find?_above_workingDir hinitial⟩
    · exact ⟨node, h.find?_eq_some_iff.mpr (.inr hn)⟩
  · rintro ⟨node, hfind⟩
    rcases mem_of_find? hfind with ⟨hinitial, _⟩ | hn
    · exact .inl hinitial
    · exact .inr ⟨node, hn⟩

theorem plain_of_mem_namesIn (h : l.IsTree) {name : String} (hname : name ∈ l.namesIn place) :
    Path.IsPlain name := by
  obtain ⟨node, hfind⟩ := h.mem_namesIn_iff.mp hname
  exact h.plain_of_find? hfind name (List.mem_append_right _ (List.mem_singleton.mpr rfl))

end IsTree

/-- The most names that lead to a place where something stands. -/
def depth (l : Listing) : Nat :=
  ((l.workingDir :: l.nodes.map (·.1)).map List.length).max?.getD 0

theorem length_le_depth {node : Node} (h : l.find? place = some node) :
    place.length ≤ l.depth := by
  have hle {other : List String} (hother : other ∈ l.workingDir :: l.nodes.map (·.1)) :
      other.length ≤ l.depth :=
    List.le_max?_getD_of_mem (List.mem_map_of_mem hother)
  rcases mem_of_find? h with ⟨hinitial, _⟩ | hmem
  · exact Nat.le_trans hinitial.length_le (hle List.mem_cons_self)
  · exact hle (List.mem_cons_of_mem _ (List.mem_map.mpr ⟨_, hmem, rfl⟩))

/-! ### Single changes -/

@[simp] theorem workingDir_insert (l : Listing) (place : List String) (node : Node) :
    (l.insert place node).workingDir = l.workingDir := by
  unfold insert
  split <;> rfl

/-- A replacement keeps places, so what is found by its place is found at the same index. -/
theorem find?_map_replace (nodes : List (List String × Node)) (place other : List String)
    (node : Node) :
    (nodes.map fun n => if n.1 == place then (place, node) else n).find? (·.1 == other) =
      (nodes.find? (·.1 == other)).map fun n => if n.1 == place then (place, node) else n := by
  rw [List.find?_map]
  congr 2
  funext n
  simp only [Function.comp_apply]
  split
  · rename_i hn
    rw [eq_of_beq hn]
  · rfl

theorem find?_insert_of_ne (l : Listing) {place other : List String} (node : Node)
    (h : other ≠ place) : (l.insert place node).find? other = l.find? other := by
  unfold find?
  rw [workingDir_insert]
  split
  · rfl
  · unfold insert
    split
    · rw [find?_map_replace]
      cases hother : l.nodes.find? (·.1 == other) with
      | none => rfl
      | some n =>
        have hn : n.1 = other := by simpa using List.find?_some hother
        have hkept : ¬(n.1 == place) = true := by simpa [hn] using h
        simp only [Option.map_some, if_neg hkept]
    · rw [List.find?_append, List.find?_singleton, beq_false_of_ne h.symm]
      simp

theorem find?_insert_self (l : Listing) {place : List String} (node : Node)
    (h : l.find? place ≠ some .directory) : (l.insert place node).find? place = some node := by
  have hout : ¬place.isPrefixOf l.workingDir = true := by
    intro hin
    rw [find?, if_pos hin] at h
    exact h rfl
  unfold find?
  rw [workingDir_insert, if_neg hout]
  unfold insert
  split
  · rename_i hany
    rw [find?_map_replace]
    cases hfound : l.nodes.find? (·.1 == place) with
    | none =>
      obtain ⟨n, hn, hplace⟩ := List.any_eq_true.mp hany
      exact absurd hplace (List.find?_eq_none.mp hfound n hn)
    | some n =>
      have hn : (n.1 == place) = true := by simpa using List.find?_some hfound
      simp only [Option.map_some, if_pos hn]
  · rename_i hnone
    have hfound : l.nodes.find? (·.1 == place) = none := by
      rw [List.find?_eq_none]
      exact fun n hn hplace => hnone (List.any_eq_true.mpr ⟨n, hn, hplace⟩)
    rw [List.find?_append, hfound, List.find?_singleton, beq_self_eq_true]
    rfl

theorem mem_nodes_insert {node : Node} {n : List String × Node}
    (h : n ∈ (l.insert place node).nodes) : n = (place, node) ∨ n ∈ l.nodes := by
  unfold insert at h
  split at h
  · obtain ⟨m, hm, rfl⟩ := List.mem_map.mp h
    split
    · exact .inl rfl
    · exact .inr hm
  · rcases List.mem_append.mp h with hn | hn
    · exact .inr hn
    · exact .inl (List.mem_singleton.mp hn)

theorem nodup_places_insert (h : (l.nodes.map (·.1)).Nodup) (place : List String) (node : Node) :
    ((l.insert place node).nodes.map (·.1)).Nodup := by
  unfold insert
  split
  · have hplaces : (l.nodes.map fun n => if n.1 == place then (place, node) else n).map (·.1) =
        l.nodes.map (·.1) := by
      rw [List.map_map]
      refine List.map_congr_left fun n _ => ?_
      simp only [Function.comp_apply]
      split
      · rename_i hn
        exact (eq_of_beq hn).symm
      · rfl
    rw [hplaces]
    exact h
  · rename_i hnone
    rw [List.map_append, List.nodup_append]
    refine ⟨h, by simp, ?_⟩
    rintro _ hother _ hnew rfl
    obtain ⟨n, hn, hplace⟩ := List.mem_map.mp hother
    refine hnone (List.any_eq_true.mpr ⟨n, hn, beq_iff_eq.mpr ?_⟩)
    exact hplace.trans (List.mem_singleton.mp hnew)

/-! ### Growing trees -/

/-- At the place stands a directory, or something can be put there. -/
def CanStand (l : Listing) (place : List String) : Prop :=
  l.find? place = some .directory ∨
    ∃ parent name, place = parent ++ [name] ∧ l.find? parent = some .directory ∧
      Path.IsPlain name

namespace IsTree

theorem of_workingDir {workingDir : List String} (h : ∀ name ∈ workingDir, Path.IsPlain name) :
    IsTree ⟨workingDir, []⟩ where
  distinct := .nil
  outside := nofun
  parent := nofun
  plain := nofun
  plain_workingDir := h

/-- Something is put into a directory, where no directory stands. -/
theorem insert (h : l.IsTree) (hplace : l.find? place = some .directory) {name : String}
    (hname : Path.IsPlain name) (hfree : l.find? (place ++ [name]) ≠ some .directory)
    (node : Node) : (l.insert (place ++ [name]) node).IsTree where
  distinct := nodup_places_insert h.distinct _ node
  outside n hn := by
    rw [workingDir_insert]
    rcases mem_nodes_insert hn with rfl | hn
    · exact fun hinitial => hfree (find?_above_workingDir hinitial)
    · exact h.outside n hn
  parent n hn := by
    rcases mem_nodes_insert hn with rfl | hn
    · rw [List.dropLast_concat, find?_insert_of_ne l node (by simp)]
      exact hplace
    · have hparent := h.parent n hn
      have hne : n.1.dropLast ≠ place ++ [name] := fun heq => hfree (heq ▸ hparent)
      rw [find?_insert_of_ne l node hne]
      exact hparent
  plain n hn := by
    rcases mem_nodes_insert hn with rfl | hn
    · exact List.forall_mem_append.mpr
        ⟨h.plain_of_find? hplace, List.forall_mem_singleton.mpr hname⟩
    · exact h.plain n hn
  plain_workingDir := by
    rw [workingDir_insert]
    exact h.plain_workingDir

/-- Directories are made in a tree, also when a file turns out to be in the way. -/
theorem makeDirsFrom (h : l.IsTree) (hplace : l.find? place = some .directory) (made : Bool)
    {segments : List String} (hsegments : ∀ segment ∈ segments, '/' ∉ segment.toList) :
    (l.makeDirsFrom place made segments).2.IsTree := by
  induction segments generalizing l place made with
  | nil => exact h
  | cons segment rest ih =>
    obtain ⟨hslash, hrest⟩ := List.forall_mem_cons.mp hsegments
    rw [Listing.makeDirsFrom]
    split
    · exact ih h hplace made hrest
    · rename_i hhere
      split
      · exact ih h (h.parent_of_find? hplace) made hrest
      · rename_i hup
        split
        · rename_i hnone
          have hfree : l.find? (place ++ [segment]) ≠ some .directory := by
            intro hdirectory
            cases hnone.symm.trans hdirectory
          exact ih (h.insert hplace (Path.isPlain_of_segment hslash hhere hup) hfree .directory)
            (find?_insert_self l .directory hfree) true hrest
        · rename_i hdirectory
          exact ih h hdirectory made hrest
        · exact h

theorem makeDirs (h : l.IsTree) (path : Path) : (l.makeDirs path).2.IsTree :=
  h.makeDirsFrom (l.find?_start path) false fun _ => Path.noSlash_of_mem_segments

theorem canStand_of_step (h : l.IsTree) {segment : String} (hslash : '/' ∉ segment.toList)
    {next : List String} (hstep : l.step place segment = .ok next) : l.CanStand next := by
  obtain ⟨hplace, rfl⟩ := step_eq_ok_iff.mp hstep
  unfold descend
  split
  · exact .inl hplace
  · rename_i hhere
    split
    · exact .inl (h.parent_of_find? hplace)
    · rename_i hup
      exact .inr ⟨_, segment, rfl, hplace, Path.isPlain_of_segment hslash hhere hup⟩

theorem canStand_of_foldlM_step (h : l.IsTree) (hplace : l.CanStand place)
    {segments : List String} (hsegments : ∀ segment ∈ segments, '/' ∉ segment.toList)
    {last : List String} (hsteps : segments.foldlM l.step place = .ok last) : l.CanStand last := by
  induction segments generalizing place with
  | nil =>
    cases hsteps
    exact hplace
  | cons segment rest ih =>
    obtain ⟨hslash, hrest⟩ := List.forall_mem_cons.mp hsegments
    rw [List.foldlM_cons] at hsteps
    obtain ⟨next, hstep, hsteps⟩ := bind_eq_ok.mp hsteps
    exact ih (h.canStand_of_step hslash hstep) hrest hsteps

theorem canStand_of_locate (h : l.IsTree) {path : Path} (hlocate : l.locate path = .ok place) :
    l.CanStand place := by
  unfold locate at hlocate
  split at hlocate
  · cases hlocate
  · exact h.canStand_of_foldlM_step (.inl (l.find?_start path))
      (fun _ => Path.noSlash_of_mem_segments) hlocate

theorem write (h : l.IsTree) {path : Path} {content : ByteArray} {after : Listing}
    (hwrite : l.write path content = .ok after) : after.IsTree := by
  obtain ⟨place, hlocate, hwrite⟩ := bind_eq_ok.mp hwrite
  split at hwrite
  · cases hwrite
  · rename_i hfree
    cases hwrite
    rcases h.canStand_of_locate hlocate with hdirectory | ⟨parent, name, rfl, hparent, hname⟩
    · exact absurd hdirectory hfree
    · exact h.insert hparent hname hfree (.file content)

end IsTree

/-- A tree stays one when something is put into it. -/
theorem isTree_place (h : l.IsTree) (path : Path) (node : Node) : (l.place path node).IsTree := by
  cases node with
  | directory =>
    have hdirs := h.makeDirs path
    rw [Listing.place]
    split
    · rename_i hok
      rw [hok] at hdirs
      exact hdirs
    · exact h
  | file content =>
    have hdirs := h.makeDirsFrom (l.find?_start path) false fun segment hsegment =>
      Path.noSlash_of_mem_segments (List.dropLast_subset path.segments hsegment)
    rw [Listing.place]
    split
    · rename_i made hok
      rw [hok] at hdirs
      cases hwrite : made.write path content with
      | error fault => exact h
      | ok after => exact hdirs.write hwrite
    · exact h

end Projection.Listing
