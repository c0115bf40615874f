import Projection.Path

/-!
# Segments of paths

The segments of a path are the texts between its slashes, so none of them has a slash. A name that
is joined to a path becomes its last segment (`Path.exists_stem`).
-/

namespace Projection.Path

/-! ### Splitting at slashes -/

theorem splitSlashes_ne_nil (cs : List Char) : splitSlashes cs ≠ [] := by
  fun_cases splitSlashes cs <;> simp_all

theorem splitSlashes_cons {c : Char} (hc : c ≠ '/') {cs part : List Char} {parts : List (List Char)}
    (h : splitSlashes cs = part :: parts) : splitSlashes (c :: cs) = (c :: part) :: parts := by
  rw [splitSlashes, h]
  exact hc

theorem splitSlashes_of_not_mem {cs : List Char} (h : '/' ∉ cs) : splitSlashes cs = [cs] := by
  induction cs with
  | nil => rfl
  | cons c cs ih =>
    rw [List.mem_cons, not_or] at h
    exact splitSlashes_cons (Ne.symm h.1) (ih h.2)

theorem splitSlashes_append (cs ds : List Char) :
    splitSlashes (cs ++ '/' :: ds) = splitSlashes cs ++ splitSlashes ds := by
  induction cs with
  | nil => rfl
  | cons c cs ih =>
    by_cases hc : c = '/'
    · subst hc
      exact congrArg (List.cons []) ih
    · obtain ⟨part, parts, hparts⟩ := List.exists_cons_of_ne_nil (splitSlashes_ne_nil cs)
      rw [hparts, List.cons_append] at ih
      rw [List.cons_append, splitSlashes_cons hc hparts, splitSlashes_cons hc ih, List.cons_append]

theorem noSlash_of_mem_splitSlashes {cs part : List Char} (h : part ∈ splitSlashes cs) :
    '/' ∉ part := by
  induction cs generalizing part with
  | nil =>
    rw [List.mem_singleton.mp h]
    exact List.not_mem_nil
  | cons c cs ih =>
    by_cases hc : c = '/'
    · subst hc
      rcases List.mem_cons.mp h with rfl | h
      · exact List.not_mem_nil
      · exact ih h
    · obtain ⟨first, more, hparts⟩ := List.exists_cons_of_ne_nil (splitSlashes_ne_nil cs)
      rw [hparts] at ih
      rw [splitSlashes_cons hc hparts] at h
      rcases List.mem_cons.mp h with rfl | h
      · rw [List.mem_cons, not_or]
        exact ⟨Ne.symm hc, ih List.mem_cons_self⟩
      · exact ih (List.mem_cons_of_mem _ h)

theorem segments_of_not_mem {name : String} (h : '/' ∉ name.toList) : segments name = [name] := by
  rw [segments, splitSlashes_of_not_mem h, List.map_singleton, String.ofList_toList]

theorem segments_append (path : Path) (rest : String) :
    segments (path ++ "/" ++ rest) = path.segments ++ segments rest := by
  have hchars : (path ++ "/" ++ rest).toList = path.toList ++ '/' :: rest.toList := by
    simp [String.toList_append]
  rw [segments, hchars, splitSlashes_append, List.map_append]
  rfl

theorem noSlash_of_mem_segments {path : Path} {segment : String} (h : segment ∈ path.segments) :
    '/' ∉ segment.toList := by
  obtain ⟨part, hpart, rfl⟩ := List.mem_map.mp h
  rw [String.toList_ofList]
  exact noSlash_of_mem_splitSlashes hpart

/-- A segment stays at a place, leads up, or is a plain name. -/
theorem isPlain_of_segment {segment : String} (hslash : '/' ∉ segment.toList)
    (hhere : ¬(segment == "" || segment == ".") = true) (hup : ¬(segment == "..") = true) :
    IsPlain segment := by
  rw [Bool.or_eq_true, not_or, beq_iff_eq, beq_iff_eq] at hhere
  exact ⟨hslash, hhere.1, hhere.2, fun heq => hup (beq_iff_eq.mpr heq)⟩

/-! ### Joining a name to a path -/

theorem join_cases (path : Path) :
    (path = "" ∧ ∀ name, join path name = name) ∨
      (∃ base : Path, path = base ++ "/" ∧ ∀ name, join path name = path ++ name) ∨
      (path ≠ "" ∧ ∀ name, join path name = path ++ "/" ++ name) := by
  unfold join
  split
  · rename_i hempty
    exact .inl ⟨String.isEmpty_iff.mp hempty, fun _ => rfl⟩
  · rename_i hempty
    refine .inr ?_
    split
    · rename_i hslash
      obtain ⟨chars, hchars⟩ := List.getLast?_eq_some_iff.mp (eq_of_beq hslash)
      exact .inl ⟨String.ofList chars, String.toList_injective (by simp [hchars]), fun _ => rfl⟩
    · exact .inr ⟨fun h => hempty (String.isEmpty_iff.mpr h), fun _ => rfl⟩

/-- A name that is joined to a path becomes its last segment. It takes the place of the empty
segment that an empty path and one with a slash at its end have there. -/
theorem exists_stem (path : Path) :
    ∃ stem, (path.segments = stem ∨ path.segments = stem ++ [""]) ∧
      ∀ name, '/' ∉ name.toList → (join path name).segments = stem ++ [name] := by
  rcases join_cases path with ⟨rfl, hjoin⟩ | ⟨base, rfl, hjoin⟩ | ⟨_, hjoin⟩
  · refine ⟨[], .inr rfl, fun name hname => ?_⟩
    rw [hjoin, segments_of_not_mem hname]
    rfl
  · refine ⟨base.segments, .inr ?_, fun name hname => ?_⟩
    · rw [← String.append_empty (s := base ++ "/"), segments_append]
      rfl
    · rw [hjoin, segments_append, segments_of_not_mem hname]
  · refine ⟨path.segments, .inl rfl, fun name hname => ?_⟩
    rw [hjoin, segments_append, segments_of_not_mem hname]

theorem isAbsolute_append {path : Path} (h : path ≠ "") (rest : String) :
    isAbsolute (path ++ rest) = path.isAbsolute := by
  have hchars : path.toList ≠ [] := fun hnil => h (String.toList_eq_nil_iff.mp hnil)
  obtain ⟨c, cs, hpath⟩ := List.exists_cons_of_ne_nil hchars
  rw [isAbsolute, isAbsolute, String.toList_append, hpath, List.cons_append, List.head?_cons,
    List.head?_cons]

theorem isAbsolute_join (path : Path) {name : String} (h : '/' ∉ name.toList) :
    (join path name).isAbsolute = path.isAbsolute := by
  rcases join_cases path with ⟨rfl, hjoin⟩ | ⟨base, hbase, hjoin⟩ | ⟨hne, hjoin⟩
  · rw [hjoin]
    have hhead : name.toList.head? ≠ some '/' := fun hhead => h (List.mem_of_head? hhead)
    exact beq_false_of_ne hhead
  · rw [hjoin, isAbsolute_append]
    rw [hbase]
    simp
  · rw [hjoin, String.append_assoc, isAbsolute_append hne]

end Projection.Path
