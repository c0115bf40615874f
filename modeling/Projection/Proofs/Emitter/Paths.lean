import Projection.Emitter
import Projection.Proofs.FileTree.Changes
import Projection.Proofs.Token.Spelling

/-!
# Paths of types

The file of a type stands in the directory of the emitter, under a name that is made from the name
of the type. If the latter is a word, the former has no slash and is none of the special names
(`Rendering.isPlain_fileName`). Then the path has one component more than the directory and leads
one place down from it, so two types have the same path, the same place and the same file name, or
differ in all three (`Emitter.components_pathOf_iff`, `Emitter.placeOf_pathOf_iff`).
-/

namespace Projection

/-! ### Characters of file names -/

namespace Text

open Token (isWordChar)

theorem flatten_clustersAfter (context : Context) (cs : List Char) :
    (clustersAfter context cs).1 ++ (clustersAfter context cs).2.flatten = cs := by
  induction cs generalizing context with
  | nil => rfl
  | cons c cs ih =>
    have hrest := ih (context.next c)
    rw [clustersAfter]
    dsimp only
    split
    · rw [List.cons_append, hrest]
    · rw [List.nil_append, List.flatten_cons, List.cons_append, hrest]

/-- Clusters have only characters of the text. -/
theorem mem_of_mem_clusters {cs cluster : List Char} (h : cluster ∈ clusters cs) {c : Char}
    (hc : c ∈ cluster) : c ∈ cs := by
  rw [← flatten_clustersAfter Context.start cs]
  exact List.mem_append_right _ (List.mem_flatten_of_mem h hc)

theorem mem_of_mem_segments {clusters : List (List Char)} {word : List Char}
    (h : word ∈ segments clusters) {c : Char} (hc : c ∈ word) : c ∈ clusters.flatten := by
  induction clusters generalizing word with
  | nil =>
    rw [segments, List.mem_singleton] at h
    subst h
    cases hc
  | cons cluster more ih =>
    rw [List.flatten_cons, List.mem_append]
    rw [segments] at h
    -- The cluster separates words, is a word, or goes before the first word of the rest.
    split at h
    · rcases List.mem_cons.mp h with rfl | h
      · cases hc
      · exact .inr (ih h hc)
    · split at h
      · rcases List.mem_cons.mp h with rfl | h
        · exact .inl hc
        · exact .inr (ih h hc)
      · split at h
        · rename_i first rest hmore
          rcases List.mem_cons.mp h with rfl | h
          · rcases List.mem_append.mp hc with hc | hc
            · exact .inl hc
            · exact .inr (ih (hmore ▸ List.mem_cons_self) hc)
          · exact .inr (ih (hmore ▸ List.mem_cons_of_mem _ h) hc)
        · rw [List.mem_singleton] at h
          subst h
          exact .inl hc

theorem isWordChar_toLower {c : Char} (h : isWordChar c = true) : isWordChar c.toLower = true :=
  Token.of_isWordChar (p := fun c => isWordChar c.toLower) (by decide) h

theorem all_isWordChar_lowerWord {before cs : List Char} (h : cs.all isWordChar = true) :
    (lowerWord before cs).all isWordChar = true := by
  induction cs generalizing before with
  | nil => rfl
  | cons c cs ih =>
    rw [List.all_cons, Bool.and_eq_true] at h
    have hascii : c.toNat < 128 := Nat.lt_of_le_of_lt (Token.toNat_of_isWordChar h.1).2 (by decide)
    have hsigma : c ≠ 'Σ' := Token.ne_of_isWordChar h.1 (by decide)
    rw [lowerWord, if_neg (by simpa using hsigma), lower, if_pos hascii]
    rw [List.all_append, ih h.2, List.all_cons, isWordChar_toLower h.1]
    rfl

/-- A word is a word in snake case too. -/
theorem all_isWordChar_snakeCase {s : String} (h : s.toList.all isWordChar = true) :
    (snakeCase s).toList.all isWordChar = true := by
  rw [snakeCase, String.toList_intercalate, List.all_intercalate (by decide), List.all_eq_true]
  intro part hpart
  obtain ⟨text, htext, rfl⟩ := List.mem_map.mp hpart
  obtain ⟨word, hword, rfl⟩ := List.mem_map.mp htext
  rw [String.toList_ofList]
  refine all_isWordChar_lowerWord (List.all_eq_true.mpr fun c hc => ?_)
  obtain ⟨cluster, hcluster, hc⟩ := List.mem_flatten.mp (mem_of_mem_segments hword hc)
  exact List.all_eq_true.mp h c (mem_of_mem_clusters hcluster hc)

end Text

/-! ### Components of paths -/

namespace Path

theorem Component.order_eq_iff (a b : Component) : a.order b = .eq ↔ a = b := by
  cases a <;> cases b <;> simp [Component.order, Component.ctorIdx]

theorem orderComponents_eq_iff (as bs : List Component) :
    orderComponents as bs = .eq ↔ as = bs := by
  induction as generalizing bs with
  | nil => cases bs <;> simp [orderComponents]
  | cons a as ih =>
    cases bs with
    | nil => simp [orderComponents]
    | cons b bs =>
      rw [orderComponents, Ordering.then_eq_eq, Component.order_eq_iff, ih, List.cons.injEq]

/-- Paths are equal in their order if they have the same components. -/
theorem order_eq_iff (p q : Path) : order p q = .eq ↔ p.components = q.components :=
  orderComponents_eq_iff p.components q.components

theorem IsPlain.inner?_eq {name : String} (h : IsPlain name) : inner? name = some (.name name) := by
  simp [inner?, h.ne_empty, h.ne_here, h.ne_parent]

/-- A plain name that is joined to a path is one component more. -/
theorem components_join (path : Path) {name : String} (h : IsPlain name) :
    (join path name).components = path.components ++ [.name name] := by
  obtain ⟨stem, hpath, hjoin⟩ := exists_stem path
  have hlast : inner? "" = none := rfl
  have hinner : path.segments.filterMap inner? = stem.filterMap inner? := by
    rcases hpath with hpath | hpath
    · rw [hpath]
    · rw [hpath, List.filterMap_append, List.filterMap_cons_none hlast, List.filterMap_nil,
        List.append_nil]
  have hhead : ((stem ++ [name]).head? == some ".") = (path.segments.head? == some ".") := by
    -- Only in an empty path is the name the first segment, and it is no dot.
    cases stem with
    | nil =>
      rcases hpath with hpath | hpath
      · exact absurd (List.map_eq_nil_iff.mp hpath) (splitSlashes_ne_nil _)
      · simp [hpath, h.ne_here]
    | cons first more => rcases hpath with hpath | hpath <;> rw [hpath] <;> rfl
  rw [components, components, isAbsolute_join path h.noSlash, hjoin name h.noSlash, hhead, hinner,
    List.filterMap_append, List.filterMap_cons_some h.inner?_eq, List.filterMap_nil,
    List.append_assoc]

end Path

/-! ### Files of types -/

theorem Rendering.isPlain_fileName {d : Dto} (h : d.name.toList.all Token.isWordChar = true) :
    Path.IsPlain (fileName d) := by
  have hchars : (fileName d).toList = (Text.snakeCase d.name).toList ++ ['.', 'r', 's'] :=
    String.toList_append
  have hne : ∀ s : String, s.toList.getLast? ≠ some 's' → fileName d ≠ s := by
    rintro s hs rfl
    rw [hchars, List.getLast?_append] at hs
    exact hs rfl
  refine ⟨fun hslash => ?_, hne "" (by decide), hne "." (by decide), hne ".." (by decide)⟩
  rw [hchars, List.mem_append] at hslash
  rcases hslash with hslash | hslash
  · exact absurd (List.all_eq_true.mp (Text.all_isWordChar_snakeCase h) _ hslash) (by decide)
  · exact absurd hslash (by decide)

namespace Emitter

variable {d d' : Dto}

/-- Two types have the same path if their files have the same name. -/
theorem components_pathOf_iff (e : Emitter) (h : d.name.toList.all Token.isWordChar = true)
    (h' : d'.name.toList.all Token.isWordChar = true) :
    (e.pathOf d).components = (e.pathOf d').components ↔
      Rendering.fileName d = Rendering.fileName d' := by
  rw [pathOf, pathOf, Path.components_join _ (Rendering.isPlain_fileName h),
    Path.components_join _ (Rendering.isPlain_fileName h')]
  simp

/-- Two types have the same place if their files have the same name. -/
theorem placeOf_pathOf_iff (e : Emitter) (tree : FileTree)
    (h : d.name.toList.all Token.isWordChar = true)
    (h' : d'.name.toList.all Token.isWordChar = true) :
    tree.placeOf (e.pathOf d) = tree.placeOf (e.pathOf d') ↔
      Rendering.fileName d = Rendering.fileName d' := by
  rw [pathOf, pathOf, tree.placeOf_join _ (Rendering.isPlain_fileName h),
    tree.placeOf_join _ (Rendering.isPlain_fileName h')]
  simp

end Emitter

end Projection
