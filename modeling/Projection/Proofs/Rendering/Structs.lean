import Projection.Proofs.Dto.Origin
import Projection.Rendering

/-!
# The structs of nested types

Rendering walks down the tree of a DTO type with the name of the struct it is in and the enclosing
types it has passed. Both are functions of the types on the way, `structNameAt` and `scopesAt`, and
with them every property at every depth is found again in the rendering: as a field, `fieldAt`, of
the struct for its type (`Rendering.rendered_of_encloses`).

On one way down no two structs have the same name (`Rendering.structNameAt_injective`): the name of
a nested struct is the one around it with something put behind, since the words of a nested type
name are never all empty.
-/

namespace Projection

/-! ### Words of a nested type name -/

namespace Text

theorem clusters_cons (c : Char) (cs : List Char) :
    ∃ rest more, clusters (c :: cs) = (c :: rest) :: more := by
  rcases h : clustersAfter (Context.start.next c) cs with ⟨rest, more⟩
  have hstart : Context.start.joins (ClusterClass.of c) = false := rfl
  exact ⟨rest, more, by simp [clusters, clustersAfter, h, hstart]⟩

theorem segments_cons {cluster : List Char} (more : List (List Char))
    (h : isSeparator cluster = false) :
    ∃ tail rest, segments (cluster :: more) = (cluster ++ tail) :: rest := by
  rw [segments]
  split
  · rename_i hsep
    rw [h] at hsep
    cases hsep
  · split
    · exact ⟨[], segments more, by rw [List.append_nil]⟩
    · split
      · rename_i word rest _
        exact ⟨word, rest, rfl⟩
      · exact ⟨[], [], by rw [List.append_nil]⟩

/-- A name that starts with a letter is not lost in words. -/
theorem pascalCase_ne_empty {s : String} {c : Char} {cs : List Char} (hs : s.toList = c :: cs)
    (hsep : ∀ rest, isSeparator (c :: rest) = false) (hupper : upper c ≠ []) :
    pascalCase s ≠ "" := by
  obtain ⟨rest, more, hclusters⟩ := clusters_cons c cs
  obtain ⟨tail, words', hwords⟩ := segments_cons more (hsep rest)
  have hcase : (pascalCase s).toList =
      upper c ++ (lowerWord [] (rest ++ tail) ++ words'.flatMap capitalWord) := by
    rw [pascalCase, words, hs, hclusters, hwords, String.toList_ofList, List.flatMap_cons,
      List.cons_append, capitalWord, List.append_assoc]
  intro hempty
  rw [hempty] at hcase
  have hnil := List.append_eq_nil_iff.mp hcase.symm
  exact hupper hnil.1

end Text

theorem Selection.pascalCase_nestedTypeName (property : Name) :
    Text.pascalCase (nestedTypeName property) ≠ "" := by
  have hchars : (nestedTypeName property).toList =
      'T' :: ("argetOf_".toList ++ property.toList) := by
    rw [nestedTypeName, String.toList_append]
    rfl
  refine Text.pascalCase_ne_empty hchars ?_ (by decide)
  intro rest
  simp [Text.isSeparator]

/-! ### The way down -/

namespace Rendering

/-- The name of the struct for the type `T` within the types `outer`. -/
def structNameAt (T : Outline) : List Outline → String
  | [] => T.name
  | o :: outer => structName (structNameAt o outer) T.name

/-- The enclosing types as they are known where the properties of `T` are rendered. -/
def scopesAt (T : Outline) : List Outline → Scopes
  | [] => [(T.name, structNameAt T [])]
  | o :: outer => (T.name, structNameAt T (o :: outer)) :: scopesAt o outer

/-- The field for a property of `T`. -/
def fieldAt (T : Outline) (outer : List Outline) (p : Property) : Field :=
  fieldOf (structNameAt T outer) (scopesAt T outer) p

theorem structsOf_subset_all {parent : String} {scopes : Scopes} {p : Property}
    {properties : List Property} (hp : p ∈ properties) :
    structsOf parent scopes p ⊆ structsOfAll parent scopes properties := by
  induction properties with
  | nil => cases hp
  | cons q properties ih =>
    rw [structsOfAll]
    rcases List.mem_cons.mp hp with rfl | hp
    · exact List.subset_append_left _ _
    · exact List.Subset.trans (ih hp) (List.subset_append_right _ _)

/-- Every property at every depth is rendered: its field stands in the struct of its type, and the
structs for the types inside it follow. -/
theorem rendered_of_encloses {d : Dto} {T : Outline} {outer : List Outline} {p : Property}
    (hp : d.Encloses T outer p) :
    (∃ struct ∈ structsOfDto d, struct.name = structNameAt T outer ∧ struct.entity = T.entity ∧
      fieldAt T outer p ∈ struct.fields) ∧
      structsOf (structNameAt T outer) (scopesAt T outer) p ⊆ structsOfDto d := by
  induction hp with
  | top hmem =>
    refine ⟨⟨_, List.mem_cons_self, rfl, rfl, ?_⟩, ?_⟩
    · exact List.mem_append_left _ (List.mem_map_of_mem hmem)
    · exact List.subset_cons_of_subset _ (structsOf_subset_all hmem)
  | inner _ hmem ih =>
    -- The structs of a nested property are the one for its type and those of its properties.
    have hsub := ih.2
    rw [structsOf] at hsub
    refine ⟨⟨_, hsub List.mem_cons_self, rfl, rfl, ?_⟩, ?_⟩
    · exact List.mem_map_of_mem hmem
    · refine List.Subset.trans (structsOf_subset_all hmem) ?_
      exact (List.cons_subset.mp hsub).2

/-- Every type on the way has its struct. -/
theorem struct_of_suffix {d : Dto} {T o : Outline} {outer rest : List Outline} {p : Property}
    (hp : d.Encloses T outer p) (hsuffix : (o :: rest) <:+ (T :: outer)) :
    ∃ struct ∈ structsOfDto d, struct.name = structNameAt o rest ∧ struct.entity = o.entity := by
  obtain ⟨q, hq⟩ := hp.of_suffix hsuffix
  obtain ⟨⟨struct, hstruct, hname, hentity, _⟩, _⟩ := rendered_of_encloses hq
  exact ⟨struct, hstruct, hname, hentity⟩

/-! ### Distinct names -/

/-- All types on the way have the name of a nested type, except the outermost. -/
def NestedNames (T : Outline) : List Outline → Prop
  | [] => True
  | o :: outer => (∃ property, T.name = Selection.nestedTypeName property) ∧ NestedNames o outer

theorem length_lt_structName {parent : String} {T : Outline}
    (h : ∃ property, T.name = Selection.nestedTypeName property) :
    parent.length < (structName parent T.name).length := by
  obtain ⟨property, hname⟩ := h
  have hne := Selection.pascalCase_nestedTypeName property
  rw [structName, hname, String.length_append]
  have hpos : (Text.pascalCase (Selection.nestedTypeName property)).length ≠ 0 := by
    rw [ne_eq, String.length_eq_zero_iff]
    exact hne
  omega

/-- A struct further out has a shorter name. -/
theorem length_structNameAt_lt {T o : Outline} {outer rest : List Outline}
    (hnames : NestedNames T outer) (hsuffix : (o :: rest) <:+ outer) :
    (structNameAt o rest).length < (structNameAt T outer).length := by
  induction outer generalizing T with
  | nil => exact absurd (List.suffix_nil.mp hsuffix) (List.cons_ne_nil o rest)
  | cons q outer ih =>
    have hstep : (structNameAt q outer).length < (structNameAt T (q :: outer)).length :=
      length_lt_structName hnames.1
    rcases List.suffix_cons_iff.mp hsuffix with heq | hsuffix
    · obtain ⟨rfl, rfl⟩ := List.cons.inj heq
      exact hstep
    · exact Nat.lt_trans (ih hnames.2 hsuffix) hstep

theorem NestedNames.of_suffix {T o : Outline} {outer rest : List Outline}
    (hnames : NestedNames T outer) (hsuffix : (o :: rest) <:+ (T :: outer)) :
    NestedNames o rest := by
  induction outer generalizing T with
  | nil =>
    rcases List.suffix_cons_iff.mp hsuffix with heq | hsuffix
    · obtain ⟨rfl, rfl⟩ := List.cons.inj heq
      exact hnames
    · exact absurd (List.suffix_nil.mp hsuffix) (List.cons_ne_nil o rest)
  | cons q outer ih =>
    rcases List.suffix_cons_iff.mp hsuffix with heq | hsuffix
    · obtain ⟨rfl, rfl⟩ := List.cons.inj heq
      exact hnames
    · exact ih hnames.2 hsuffix

/-- On one way down, structs with one name are of one type. -/
theorem structNameAt_injective {T o o' : Outline} {outer rest rest' : List Outline}
    (hnames : NestedNames T outer) (h : (o :: rest) <:+ (T :: outer))
    (h' : (o' :: rest') <:+ (T :: outer)) (heq : structNameAt o rest = structNameAt o' rest') :
    o :: rest = o' :: rest' := by
  -- One of the two lies further out, where names are shorter, unless they are the same.
  have hsame : ∀ {a b : Outline} {as bs : List Outline}, NestedNames b bs →
      (a :: as) <:+ (b :: bs) → structNameAt a as = structNameAt b bs → a :: as = b :: bs := by
    intro a b as bs hb hsuffix hname
    rcases List.suffix_cons_iff.mp hsuffix with hab | hsuffix
    · exact hab
    · have hlt := length_structNameAt_lt hb hsuffix
      rw [hname] at hlt
      exact absurd hlt (Nat.lt_irrefl _)
  rcases List.suffix_or_suffix_of_suffix h h' with hsuffix | hsuffix
  · exact hsame (hnames.of_suffix h') hsuffix heq
  · exact (hsame (hnames.of_suffix h) hsuffix heq.symm).symm

end Rendering

/-! ### Compiled types -/

/-- The types on the way to a property of a compiled type have the names of nested types. -/
theorem Dto.Arises.nestedNames {P : Type} {schema : Schema} {defaults : Defaults} {entity : Name}
    {shared : List (Located P Modifier)} {decl : Declaration P} {selections : List (Selection P)}
    {d : Dto} (hd : Dto.Arises schema defaults entity shared decl selections d) {T : Outline}
    {outer : List Outline} {p : Property} (hp : d.Encloses T outer p) :
    Rendering.NestedNames T outer := by
  induction hp with
  | top => trivial
  | inner houter _ ih =>
    obtain ⟨_, _, s, hs, hof⟩ := hd.origin houter
    obtain ⟨_, _, _, _, rfl, rfl, _⟩ := Property.ofSelection_eq_nested hof
    cases hs with
    | nested _ _ _ _ htype _ => exact ⟨⟨_, htype⟩, ih⟩

end Projection
