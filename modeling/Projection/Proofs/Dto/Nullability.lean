import Projection.Proofs.Dto.Reading

/-!
# When a property is nullable

The flag is decided in four places: the schema, the flattened attributes on the way to a property,
the mark on the item or macro that selected it, and the role of the type. `NullabilityRule` states
the result as one rule about the property alone. A mark wins. Without one, the property is nullable
if its attribute is, or an attribute that was flattened on the way, or if the type is a
specification. An attribute outside the type of the property has no say: `via` starts at the entity
of that type, so a flattened association does not reach into the nested types behind it.

`Source.compile_nullability` proves the rule for every property at every depth, and the one for
user-defined properties beside it.
-/

namespace Projection

variable {P : Type} {schema : Schema} {traits : Traits}

/-- What decides whether a property of a type in this role is nullable, where `m` is its attribute
and `via` are the attributes flattened on the way. -/
def PropertyInfo.NullabilityRule (role : Role) (via : List Attribute) (m : Attribute)
    (info : PropertyInfo) : Prop :=
  match info.nullability with
  | some .nullable => info.nullable = true
  | some .nonNull => info.nullable = false ∧ role = .input
  | none => info.nullable = true ↔
      m.nullable = true ∨ (∃ a ∈ via, a.nullable = true) ∨ role = .specification

/-- The type of a declaration obeys the rules: the types in it share their traits and mutability,
its properties at all depths are nullable by `NullabilityRule`, and a user-defined property is
nullable if its type is written so or it stands in a specification. -/
structure Dto.ObeysNullability (schema : Schema) (decl : Declaration P) (d : Dto) : Prop where
  types : ∀ T, d.Contains T → T.traits = d.outline.traits ∧ T.mutable = d.outline.mutable
  reads : ∀ T outer p, d.Encloses T outer p →
    ∃ via owner m, p.info.ReadsFrom schema T.entity via owner m
  properties : ∀ T outer p, d.Encloses T outer p →
    ∀ via owner m, p.info.ReadsFrom schema T.entity via owner m →
      p.info.NullabilityRule d.outline.traits.role via m
  users : List.Forall₂ (fun item u => u.name = item.name.val ∧ u.type = item.type.val ∧
      (u.nullable = true ↔
        item.type.val.nullable = true ∨ d.outline.traits.role = .specification))
    decl.body.users d.users
  specification : d.outline.traits.role = .specification →
    (∀ T outer p, d.Encloses T outer p → p.info.nullable = true) ∧
      ∀ u ∈ d.users, u.nullable = true

/-! ### Properties -/

theorem isInput_of_checkMark {pos : P}
    (h : Property.checkMark traits (some ⟨.nonNull, pos⟩) = .ok ()) : traits.role = .input := by
  unfold Property.checkMark at h
  split at h
  · split at h
    · rename_i hinput
      simpa [Traits.isInput] using hinput
    · cases h
  · rename_i hother
    exact absurd rfl (hother pos)

theorem nullabilityRule_infoOf {start : Name} {pick : Pick P} {via : List Attribute}
    {a : Attribute} {type : String} (hvia : pick.Follows schema start via)
    (hmark : Property.checkMark traits pick.nullability = .ok ()) :
    (Property.infoOf traits pick a type).NullabilityRule traits.role via a := by
  cases hn : pick.nullability with
  | none =>
    have hthrough : pick.throughNullable = true ↔ ∃ a ∈ via, a.nullable = true := by
      rw [hvia.throughNullable, List.any_eq_true]
    simp [PropertyInfo.NullabilityRule, Property.infoOf, Property.isNullable, hn, hthrough,
      or_assoc]
  | some mark =>
    obtain ⟨mark, pos⟩ := mark
    cases mark with
    | nullable =>
      simp [PropertyInfo.NullabilityRule, Property.infoOf, Property.isNullable, hn]
    | nonNull =>
      rw [hn] at hmark
      have hinput := isInput_of_checkMark hmark
      simp [PropertyInfo.NullabilityRule, Property.infoOf, Property.isNullable, hn, hinput]

/-- In a specification the rule leaves no choice, since a mark `!` cannot stand there. -/
theorem PropertyInfo.NullabilityRule.of_specification {role : Role} {via : List Attribute}
    {m : Attribute} {info : PropertyInfo} (h : info.NullabilityRule role via m)
    (hrole : role = .specification) : info.nullable = true := by
  subst hrole
  unfold PropertyInfo.NullabilityRule at h
  split at h
  · exact h
  · -- `!` is for inputs only.
    cases h.2
  · exact h.mpr (Or.inr (Or.inr rfl))

/-! ### User-defined properties -/

/-- The user-defined properties stand in the order of their items, one for each. -/
theorem UserProperty.forall₂_of_ofItems {type : Name} {outputs : List (Located P Name)}
    {items : List (UserItem P)} {users : List UserProperty}
    (h : UserProperty.ofItems type traits outputs items = .ok users) :
    List.Forall₂ (fun item u => UserProperty.ofItem traits item = .ok u) items users := by
  induction items generalizing outputs users with
  | nil =>
    simp only [UserProperty.ofItems] at h
    cases h
    exact .nil
  | cons item items ih =>
    simp only [UserProperty.ofItems] at h
    split at h
    · cases h
    · simp only [bind_eq_ok, pure_eq_ok] at h
      obtain ⟨u, hu, rest, hrest, rfl⟩ := h
      exact .cons hu (ih hrest)

theorem UserProperty.ofItem_eq_ok {item : UserItem P} {u : UserProperty}
    (h : UserProperty.ofItem traits item = .ok u) :
    u.name = item.name.val ∧ u.type = item.type.val ∧
      (u.nullable = true ↔ item.type.val.nullable = true ∨ traits.role = .specification) := by
  simp only [UserProperty.ofItem, bind_eq_ok, pure_eq_ok] at h
  obtain ⟨_, _, rfl⟩ := h
  exact ⟨rfl, rfl, by simp⟩

/-! ### Declarations -/

section Declarations

variable {defaults : Defaults} {entity : Name} {shared : List (Located P Modifier)}
  {decl : Declaration P} {selections : List (Selection P)} {d : Dto}

theorem Dto.Arises.contains (hd : Dto.Arises schema defaults entity shared decl selections d)
    {T : Outline} (hT : d.Contains T) :
    T.traits = d.outline.traits ∧ T.mutable = d.outline.mutable := by
  rcases hT with rfl | ⟨T', outer, info, properties, henc⟩
  · exact ⟨rfl, rfl⟩
  · obtain ⟨_, _, s, _, hof⟩ := hd.origin henc
    obtain ⟨_, _, _, _, _, rfl, _⟩ := Property.ofSelection_eq_nested hof
    exact ⟨rfl, rfl⟩

theorem Dto.Arises.obeysNullability
    (hd : Dto.Arises schema defaults entity shared decl selections d) :
    d.ObeysNullability schema decl := by
  have hrule : ∀ T outer p, d.Encloses T outer p →
      ∃ via owner m, p.info.ReadsFrom schema T.entity via owner m ∧
        p.info.NullabilityRule d.outline.traits.role via m := by
    intro T outer p hp
    obtain ⟨_, _, s, hs, hof⟩ := hd.origin hp
    obtain ⟨via, m, type, hvia, hbound, hinfo, _⟩ := hs.bind hof
    obtain ⟨hreads, _, hmark⟩ := Property.bound_eq_ok hbound
    rw [hinfo]
    exact ⟨via, _, m, readsFrom_infoOf hvia hreads, nullabilityRule_infoOf hvia hmark⟩
  have husers := (UserProperty.forall₂_of_ofItems hd.users).imp
    fun item u => UserProperty.ofItem_eq_ok
  refine ⟨fun T hT => hd.contains hT, ?_, ?_, husers, ?_⟩
  · intro T outer p hp
    obtain ⟨via, owner, m, hreads, _⟩ := hrule T outer p hp
    exact ⟨via, owner, m, hreads⟩
  · intro T outer p hp via owner m hreads
    obtain ⟨_, _, _, hreads', h⟩ := hrule T outer p hp
    obtain ⟨rfl, rfl, rfl⟩ := hreads.unique hreads'
    exact h
  · intro hrole
    constructor
    · intro T outer p hp
      obtain ⟨_, _, _, _, h⟩ := hrule T outer p hp
      exact h.of_specification hrole
    · intro u hu
      obtain ⟨item, _, _, _, hnullable⟩ := exists_mem_of_forall₂ husers hu
      exact hnullable.mpr (Or.inr hrole)

end Declarations

/-- **Nullability is exactly the documented function**, in every type of every declaration that a
source compiles to, whatever the schema. -/
theorem Source.compile_nullability {s : Source P} {defaults : Defaults} {types : List Dto}
    (hs : s.compile schema defaults = .ok types) :
    List.Forall₂ (Dto.ObeysNullability schema) s.declarations types := by
  refine (Source.arises_of_compile hs).2.imp ?_
  rintro decl d ⟨selections, hd⟩
  exact hd.obeysNullability

/-- The manager may be missing, and so may the name of the manager, although a name is not. -/
theorem Staff.managerName_nullable :
    managerName.info.NullabilityRule card.outline.traits.role
        [{ Attribute.association "manager" "Employee" false with nullable := true }]
        (.scalar "name" "String") ∧
      managerName.info.nullable = true := by
  have hobeys := (List.forall₂_cons.mp (Source.compile_nullability source_compiles)).1
  have hmanager : (SchemaStore.schema registry).Declares "Employee"
      { Attribute.association "manager" "Employee" false with nullable := true } :=
    ⟨employee, rfl, by simp [employee]⟩
  have hname : (SchemaStore.schema registry).Declares "Employee" (.scalar "name" "String") :=
    ⟨employee, rfl, by simp [employee]⟩
  have hreads :
      managerName.info.ReadsFrom (SchemaStore.schema registry) "Employee" _ "Employee" _ :=
    ⟨.step hmanager rfl (.here _), rfl, hname, rfl⟩
  exact ⟨hobeys.properties card.outline [] managerName (.top (by simp [card])) _ _ _ hreads, rfl⟩

end Projection
