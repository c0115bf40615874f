import Projection.Proofs.Schema.Registration

/-!
# Routes through a schema

A flattened property is read from an entity that lies behind one or more attributes. `Schema.Route`
says which attributes these are, step by step, without the names that a selection writes: each is
declared by the entity reached so far, and each leads to one entity, through a to-one association or
an embedded value.

A finalized registry has an entity behind every attribute that has a target
(`Registry.lookup_target`), so a route never leaves it.
-/

namespace Projection

/-- The entity that a single value of this kind leads to. -/
def Kind.single? : Kind → Option Name
  | association target false => some target
  | scalar embedded => embedded
  | _ => none

namespace Schema

variable {schema : Schema}

/-- The entity is known and has the attribute. -/
def Declares (schema : Schema) (entity : Name) (a : Attribute) : Prop :=
  ∃ e, schema.entity? entity = some e ∧ a ∈ e.attributes

/-- No two attributes of an entity have one name, so a lookup finds the attribute that is declared
and no other. -/
theorem attribute?_eq_some_iff {entity name : Name} {a : Attribute} :
    schema.attribute? entity name = some a ↔ schema.Declares entity a ∧ a.name = name := by
  cases he : schema.entity? entity with
  | none => simp [attribute?, attributesOf, Declares, he]
  | some e =>
    have hfind : schema.attribute? entity name = e.attributes.find? (·.name == name) := by
      simp [attribute?, attributesOf, he]
    have hdecl : schema.Declares entity a ↔ a ∈ e.attributes := by
      simp [Declares, he]
    rw [hfind, hdecl]
    exact find?_key_eq_some_iff e.distinct

theorem Declares.attribute? {entity : Name} {a : Attribute} (h : schema.Declares entity a) :
    schema.attribute? entity a.name = some a :=
  attribute?_eq_some_iff.mpr ⟨h, rfl⟩

theorem Declares.isSome_entity? {entity : Name} {a : Attribute} (h : schema.Declares entity a) :
    (schema.entity? entity).isSome := by
  obtain ⟨e, he, _⟩ := h
  exact Option.isSome_of_mem he

theorem mem_attributesOf {entity : Name} {a : Attribute} :
    a ∈ schema.attributesOf entity ↔ schema.Declares entity a := by
  cases he : schema.entity? entity <;> simp [attributesOf, Declares, he]

/-- The attributes lead from the first entity to the last. -/
inductive Route (schema : Schema) : Name → List Attribute → Name → Prop
  | here (entity : Name) : Route schema entity [] entity
  | step {entity target last : Name} {a : Attribute} {via : List Attribute} :
      schema.Declares entity a → a.kind.single? = some target → Route schema target via last →
      Route schema entity (a :: via) last

end Schema

namespace Registry

/-- Finalization finds an entity behind every association and embedded value. -/
theorem lookup_target {r r' : Registry} (h : r.finalize = (.ok (), r')) {entity target : Name}
    {a : Attribute} (ha : (SchemaStore.schema r').Declares entity a)
    (ht : a.kind.target? = some target) : (r'.lookup target).isSome := by
  obtain ⟨_, hclosed, rfl⟩ := finalize_eq_ok_iff.mp h
  obtain ⟨e, he, hae⟩ := ha
  have hmem : e ∈ r.entities := List.mem_of_find?_eq_some he
  exact lookup_isSome_iff.mpr (hclosed.target e hmem a hae target ht)

end Registry

end Projection
