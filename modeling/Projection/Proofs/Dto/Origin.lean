import Projection.Dto.Compile
import Projection.Proofs.Selection.Grounding

/-!
# Where the properties of a DTO type come from

A compiled type is a tree: a property may hold a type of its own with further properties. The
relation `Dto.Encloses` walks down that tree and remembers the types on the way. Every property it
arrives at was made from one selection, which is grounded at the entity of the type around it and
within the types on the way (`Dto.Arises.origin`). What holds of all properties at all depths
follows from what one selection is turned into, without another look at the tree.
-/

namespace Projection

variable {P : Type} {schema : Schema} {traits : Traits} {mutable : Bool}

/-! ### Properties in a tree of types -/

/-- The type as an enclosing type. -/
def Outline.scope (o : Outline) : Scope :=
  ⟨o.entity, o.name⟩

/-- Inside `d`, or as `d` itself, there is the type `T`, within the types `outer` with the innermost
first, and `p` is one of its properties: `d.Encloses T outer p`. -/
inductive Dto.Encloses (d : Dto) : Outline → List Outline → Property → Prop
  | top {p : Property} : p ∈ d.properties → d.Encloses d.outline [] p
  | inner {T : Outline} {outer : List Outline} {info : PropertyInfo} {o : Outline}
      {properties : List Property} {p : Property} :
      d.Encloses T outer (.nested info o properties) → p ∈ properties →
      d.Encloses o (T :: outer) p

/-- A type on the way has a property too, the one that the way goes through. -/
theorem Dto.Encloses.of_suffix {d : Dto} {T o : Outline} {outer rest : List Outline} {p : Property}
    (h : d.Encloses T outer p) (hsuffix : (o :: rest) <:+ (T :: outer)) :
    ∃ q, d.Encloses o rest q := by
  induction h with
  | top hmem =>
    rcases List.suffix_cons_iff.mp hsuffix with heq | hsuffix
    · obtain ⟨rfl, rfl⟩ := List.cons.inj heq
      exact ⟨_, .top hmem⟩
    · exact absurd (List.suffix_nil.mp hsuffix) (List.cons_ne_nil o rest)
  | inner houter hmem ih =>
    rcases List.suffix_cons_iff.mp hsuffix with heq | hsuffix
    · obtain ⟨rfl, rfl⟩ := List.cons.inj heq
      exact ⟨_, .inner houter hmem⟩
    · exact ih hsuffix

/-- The type stands in `d` at some depth, or is `d` itself. -/
def Dto.Contains (d : Dto) (T : Outline) : Prop :=
  T = d.outline ∨
    ∃ T' outer info properties, d.Encloses T' outer (.nested info T properties)

/-! ### One selection -/

namespace Property

theorem bound_eq_ok {pick : Pick P} {a : Attribute} (h : bound schema traits pick = .ok a) :
    pick.Reads schema a ∧ checkKind schema traits pick a = .ok () ∧
      checkMark traits pick.nullability = .ok () := by
  simp only [bound, bind_eq_ok, pure_eq_ok] at h
  obtain ⟨b, hb, _, hkind, _, hmark, rfl⟩ := h
  refine ⟨?_, hkind, hmark⟩
  unfold attributeOf at hb
  split at hb
  · rename_i found
    cases hb
    exact found
  · cases hb

theorem ofSelection_leaf_eq_ok {pick : Pick P} {form : Form} {p : Property}
    (h : ofSelection schema traits mutable (.leaf pick form) = .ok p) :
    ∃ a type target, bound schema traits pick = .ok a ∧
      ofForm schema pick a form = .ok (type, target) ∧
      p = .leaf (infoOf traits pick a type) target := by
  simp only [ofSelection, bind_eq_ok, pure_eq_ok] at h
  obtain ⟨a, ha, ⟨type, target⟩, hform, rfl⟩ := h
  exact ⟨a, type, target, ha, hform, rfl⟩

theorem ofSelection_nested_eq_ok {pick : Pick P} {entity type : Name}
    {inner : List (Selection P)} {p : Property}
    (h : ofSelection schema traits mutable (.nested pick entity type inner) = .ok p) :
    ∃ a properties, bound schema traits pick = .ok a ∧
      ofSelections schema traits mutable type {} inner = .ok properties ∧
      p = .nested (infoOf traits pick a type) ⟨entity, type, traits, mutable⟩ properties := by
  simp only [ofSelection, bind_eq_ok, pure_eq_ok] at h
  obtain ⟨a, ha, properties, hproperties, rfl⟩ := h
  exact ⟨a, properties, ha, hproperties, rfl⟩

/-- Only a nested selection gives a property with a type of its own. -/
theorem ofSelection_eq_nested {s : Selection P} {info : PropertyInfo} {o : Outline}
    {properties : List Property}
    (h : ofSelection schema traits mutable s = .ok (.nested info o properties)) :
    ∃ pick entity type inner, s = .nested pick entity type inner ∧
      o = ⟨entity, type, traits, mutable⟩ ∧
      ofSelections schema traits mutable type {} inner = .ok properties := by
  cases s with
  | leaf =>
    obtain ⟨_, _, _, _, _, heq⟩ := ofSelection_leaf_eq_ok h
    cases heq
  | nested pick entity type inner =>
    obtain ⟨_, _, _, hproperties, heq⟩ := ofSelection_nested_eq_ok h
    cases heq
    exact ⟨pick, entity, type, inner, rfl, rfl, hproperties⟩

/-- The properties of a type stand in the order of its selections, one for each. -/
theorem forall₂_of_ofSelections {type : Name} {taken : Taken P} {selections : List (Selection P)}
    {properties : List Property}
    (h : ofSelections schema traits mutable type taken selections = .ok properties) :
    List.Forall₂ (fun s p => ofSelection schema traits mutable s = .ok p) selections
      properties := by
  induction selections generalizing taken properties with
  | nil =>
    simp only [ofSelections] at h
    cases h
    exact .nil
  | cons s selections ih =>
    simp only [ofSelections, bind_eq_ok, pure_eq_ok] at h
    obtain ⟨_, _, p, hp, _, _, rest, hrest, rfl⟩ := h
    exact .cons hp (ih hrest)

end Property

/-! ### Declarations -/

/-- The type arises from a declaration through these selections: each part of it is what one step of
compilation gave. -/
structure Dto.Arises (schema : Schema) (defaults : Defaults) (entity : Name)
    (shared : List (Located P Modifier)) (decl : Declaration P) (selections : List (Selection P))
    (d : Dto) : Prop where
  selected : Selection.ofBody schema entity decl.name.val decl.body = .ok selections
  entity_eq : d.outline.entity = entity
  name_eq : d.outline.name = decl.name.val
  traits : Traits.resolve shared decl.modifiers defaults.stance = .ok d.outline.traits
  tags : d.tags = decl.tags.map Tag.ofItem
  mutability : Mutability.resolve? decl.tags = .ok d.mutability
  mutable_eq : d.outline.mutable = d.mutability.resolve defaults.mutable
  properties : Property.ofSelections schema d.outline.traits d.outline.mutable decl.name.val {}
    selections = .ok d.properties
  users : UserProperty.ofItems decl.name.val d.outline.traits
    (selections.map fun s => ⟨s.name, s.pick.source.pos⟩) decl.body.users = .ok d.users

section Declarations

variable {defaults : Defaults} {entity : Name} {shared : List (Located P Modifier)}
  {decl : Declaration P} {d : Dto}

theorem Dto.arises_of_ofDeclaration
    (h : Dto.ofDeclaration schema defaults entity shared decl = .ok d) :
    ∃ selections, Dto.Arises schema defaults entity shared decl selections d := by
  simp only [Dto.ofDeclaration, bind_eq_ok, pure_eq_ok] at h
  obtain ⟨selections, hselected, traits, htraits, mutability, hmutability, properties, hproperties,
    users, husers, rfl⟩ := h
  exact ⟨selections, hselected, rfl, rfl, htraits, rfl, hmutability, rfl, hproperties, husers⟩

theorem Source.inDeclaration_eq_ok {α : Type} {result : Except (Fault P) α} {a : α}
    (h : Source.inDeclaration decl result = .ok a) : result = .ok a := by
  cases result with
  | ok b => exact h
  | error fault => cases h

/-- **A source compiles to one type for each declaration**, in their order, and its entity is
known. -/
theorem Source.arises_of_compile {s : Source P} {types : List Dto}
    (h : s.compile schema defaults = .ok types) :
    (schema.entity? s.entity.val).isSome ∧
      List.Forall₂ (fun decl d => ∃ selections,
        Dto.Arises schema defaults s.entity.val s.modifiers decl selections d)
        s.declarations types := by
  unfold Source.compile at h
  split at h
  · cases h
  · rename_i hknown
    simp only [bind_eq_ok] at h
    obtain ⟨_, _, h⟩ := h
    refine ⟨by simpa [Option.isSome_iff_ne_none] using hknown, ?_⟩
    refine (forall₂_of_mapM_eq_ok h).imp ?_
    intro decl d hd
    exact Dto.arises_of_ofDeclaration (Source.inDeclaration_eq_ok hd)

end Declarations

/-! ### All depths -/

section Depths

variable {defaults : Defaults} {entity : Name} {shared : List (Located P Modifier)}
  {decl : Declaration P} {selections : List (Selection P)} {d : Dto}

theorem Dto.Arises.grounded (hd : Dto.Arises schema defaults entity shared decl selections d) :
    ∀ s ∈ selections, s.Grounded schema d.outline.entity [d.outline.scope] := by
  obtain ⟨all, hall, rfl⟩ := Selection.expands_of_ofBody hd.selected
  intro s hs
  have hscope : d.outline.scope = ⟨entity, decl.name.val⟩ := by
    rw [Outline.scope, hd.entity_eq, hd.name_eq]
  rw [hscope, hd.entity_eq]
  exact hall.grounded s (Selection.mem_of_mem_kept hs)

/-- **Every property at every depth comes from a grounded selection**, with the traits and the
mutability of the whole type. -/
theorem Dto.Arises.origin (hd : Dto.Arises schema defaults entity shared decl selections d)
    {T : Outline} {outer : List Outline} {p : Property} (hp : d.Encloses T outer p) :
    T.traits = d.outline.traits ∧ T.mutable = d.outline.mutable ∧
      ∃ s : Selection P, s.Grounded schema T.entity ((T :: outer).map Outline.scope) ∧
        Property.ofSelection schema d.outline.traits d.outline.mutable s = .ok p := by
  induction hp with
  | top hmem =>
    obtain ⟨s, hs, hof⟩ :=
      exists_mem_of_forall₂ (Property.forall₂_of_ofSelections hd.properties) hmem
    exact ⟨rfl, rfl, s, hd.grounded s hs, hof⟩
  | inner _ hmem ih =>
    obtain ⟨_, _, s, hground, hof⟩ := ih
    obtain ⟨_, _, _, _, rfl, rfl, hproperties⟩ := Property.ofSelection_eq_nested hof
    obtain ⟨t, ht, hoft⟩ :=
      exists_mem_of_forall₂ (Property.forall₂_of_ofSelections hproperties) hmem
    cases hground with
    | nested _ _ _ _ _ hinner => exact ⟨rfl, rfl, t, hinner t ht, hoft⟩

end Depths

end Projection
