import Mathlib.Data.List.Sort
import Projection.Rendering

/-!
# Imports

The entities that a file brings in are collected from the properties of the type, on a way through
the type of its own. They are in order, each once (`Rendering.pairwise_imports`), and they are the
entities in the fields of the structs (`Rendering.mem_imports`).
-/

namespace Projection

/-- The entity that a property holds as a whole. -/
def Property.whole? : Property → Option Name
  | .leaf info .value =>
    match info.kind with
    | .scalar embedded => embedded
    | _ => none
  | .leaf _ (.entity name) => some name
  | .leaf _ (.idOnly _) | .leaf _ (.recursive _) | .nested .. => none

/-! ### Entities in the types of fields -/

namespace FieldType

mutual

/-- The entities in a type. -/
def entities : FieldType → List String
  | entity name => [name]
  | named _ | struct _ => []
  | vec inner | option inner | box inner => inner.entities
  | map key value => key.entities ++ value.entities
  | generic _ arguments => entitiesAll arguments

/-- The entities in types. -/
def entitiesAll : List FieldType → List String
  | [] => []
  | t :: ts => t.entities ++ entitiesAll ts

end

theorem entities_nullable (t : FieldType) (isNullable : Bool) :
    (t.nullable isNullable).entities = t.entities := by
  cases isNullable <;> simp [nullable, entities]

theorem entities_collection (t : FieldType) (many : Bool) :
    (t.collection many).entities = t.entities := by
  cases many <;> simp [collection, entities]

theorem entities_ofDeclaredText (n : Nat) (declared : List Char) :
    (ofDeclaredText n declared).entities = [] := by
  induction n generalizing declared with
  | zero => simp [ofDeclaredText, simple, entities]
  | succ n ih =>
    rw [ofDeclaredText]
    split
    · rw [entities, ih]
    · simp [simple, entities]

/-- A declared type has no entities, even if it has the name of one. -/
theorem entities_ofDeclared (declared : String) : (ofDeclared declared).entities = [] :=
  entities_ofDeclaredText _ _

theorem entities_ofArguments (name : String) (arguments : List FieldType)
    (h : entitiesAll arguments = []) : (ofArguments name arguments).entities = [] := by
  unfold ofArguments
  split
  · exact entities_ofDeclared name
  · split
    · simpa [entities, entitiesAll] using h
    · simpa [entities] using h
  · split
    · simpa [entities, entitiesAll] using h
    · simpa [entities] using h
  · simpa [entities] using h

mutual

/-- A type that a source writes has no entities. -/
theorem entities_ofTypeRef (t : TypeRef) : (ofTypeRef t).entities = [] := by
  cases t with
  | mk name arguments isNullable =>
    rw [ofTypeRef]
    exact entities_ofArguments _ _ (entitiesAll_ofTypeRefs arguments)

theorem entitiesAll_ofTypeRefs (ts : List TypeRef) : entitiesAll (ofTypeRefs ts) = [] := by
  cases ts with
  | nil => rw [ofTypeRefs, entitiesAll]
  | cons t ts =>
    rw [ofTypeRefs, entitiesAll, entities_nullable, entities_ofTypeRef t,
      entitiesAll_ofTypeRefs ts, List.append_nil]

end

end FieldType

namespace Rendering

/-- A field has the entity that its property holds as a whole, and no other. -/
theorem entities_fieldOf (parent : String) (scopes : Scopes) (p : Property) :
    (fieldOf parent scopes p).type.entities = (p.whole?.map Name.simple).toList := by
  rw [fieldOf, FieldType.entities_nullable]
  cases p with
  | nested info o inner =>
    rw [valueType, FieldType.entities_collection, FieldType.entities]
    rfl
  | leaf info target =>
    cases target with
    | value =>
      have hwhole : (Property.leaf info .value).whole? = embeddedType info := rfl
      rw [valueType, hwhole]
      cases embeddedType info with
      | none => exact FieldType.entities_ofDeclared _
      | some e =>
        rw [FieldType.entities]
        rfl
    | entity name =>
      rw [valueType, FieldType.entities_collection, FieldType.entities]
      rfl
    | idOnly idType =>
      rw [valueType, FieldType.entities_collection, FieldType.entities_ofDeclared]
      rfl
    | recursive type =>
      rw [valueType]
      cases info.many <;> simp [FieldType.entities, Property.whole?]

theorem entities_userField (u : UserProperty) : (userField u).type.entities = [] := by
  rw [userField, FieldType.entities_nullable, FieldType.entities_ofTypeRef]

/-! ### Sorted names -/

theorem mem_insertSorted {name other : String} {names : List String} :
    other ∈ insertSorted name names ↔ other = name ∨ other ∈ names := by
  induction names with
  | nil => simp [insertSorted]
  | cons first rest ih =>
    rw [insertSorted]
    split
    · rw [List.mem_cons]
    · split
      · rename_i hsame
        simp [hsame]
      · simp only [List.mem_cons, ih]
        tauto

theorem pairwise_insertSorted {name : String} {names : List String}
    (h : names.Pairwise (· < ·)) : (insertSorted name names).Pairwise (· < ·) := by
  induction names with
  | nil => exact List.pairwise_singleton _ _
  | cons first rest ih =>
    obtain ⟨hfirst, hrest⟩ := List.pairwise_cons.mp h
    rw [insertSorted]
    split
    · rename_i hlt
      refine List.pairwise_cons.mpr ⟨?_, h⟩
      intro other hother
      rcases List.mem_cons.mp hother with rfl | hother
      · exact hlt
      · exact String.lt_trans hlt (hfirst other hother)
    · rename_i hnot
      split
      · exact h
      · rename_i hne
        refine List.pairwise_cons.mpr ⟨?_, ih hrest⟩
        intro other hother
        rcases mem_insertSorted.mp hother with rfl | hother
        · exact Std.lt_of_le_of_ne hnot (Ne.symm hne)
        · exact hfirst other hother

/-! ### Collecting -/

section Collecting

variable {name : String}

/-- The name is that of an entity in a field of the structs. -/
def OccursIn (name : String) (structs : List Struct) : Prop :=
  ∃ s ∈ structs, ∃ f ∈ s.fields, name ∈ f.type.entities

theorem occursIn_append {structs more : List Struct} :
    OccursIn name (structs ++ more) ↔ OccursIn name structs ∨ OccursIn name more := by
  simp only [OccursIn, List.mem_append, or_and_right, exists_or]

theorem occursIn_cons {s : Struct} {structs : List Struct} :
    OccursIn name (s :: structs) ↔
      (∃ f ∈ s.fields, name ∈ f.type.entities) ∨ OccursIn name structs :=
  List.exists_mem_cons_iff ..

mutual

/-- Collecting adds the entities in the field of a property and in the structs below it. -/
theorem mem_collectImports {imports : List String} (parent : String) (scopes : Scopes)
    (p : Property) :
    name ∈ collectImports imports p ↔
      name ∈ imports ∨ name ∈ (fieldOf parent scopes p).type.entities ∨
        OccursIn name (structsOf parent scopes p) := by
  have hnone : ¬ OccursIn name [] := by rintro ⟨_, hs, _⟩; cases hs
  rw [entities_fieldOf]
  cases p with
  | nested info outline properties =>
    rw [collectImports, structsOf, occursIn_cons,
      mem_collectImportsAll (structName parent outline.name)
        ((outline.name, structName parent outline.name) :: scopes) properties]
    simp [Property.whole?]
  | leaf info target =>
    rw [structsOf, or_iff_left hnone]
    cases target with
    | entity e => simp [collectImports, Property.whole?, mem_insertSorted, or_comm]
    | value =>
      have hwhole : (Property.leaf info .value).whole? = embeddedType info := rfl
      rw [collectImports, hwhole]
      cases embeddedType info with
      | none => simp
      | some e => simp [mem_insertSorted, or_comm]
    | idOnly idType => simp [collectImports, Property.whole?]
    | recursive type => simp [collectImports, Property.whole?]

theorem mem_collectImportsAll {imports : List String} (parent : String) (scopes : Scopes)
    (ps : List Property) :
    name ∈ collectImportsAll imports ps ↔
      name ∈ imports ∨ (∃ p ∈ ps, name ∈ (fieldOf parent scopes p).type.entities) ∨
        OccursIn name (structsOfAll parent scopes ps) := by
  cases ps with
  | nil =>
    rw [collectImportsAll, structsOfAll]
    simp [OccursIn]
  | cons p ps =>
    rw [collectImportsAll, structsOfAll, occursIn_append, mem_collectImportsAll parent scopes ps,
      mem_collectImports parent scopes p, List.exists_mem_cons_iff]
    simp only [or_assoc, or_left_comm]

end

end Collecting

mutual

theorem pairwise_collectImports {imports : List String} (h : imports.Pairwise (· < ·))
    (p : Property) : (collectImports imports p).Pairwise (· < ·) := by
  cases p with
  | nested info outline properties =>
    rw [collectImports]
    exact pairwise_collectImportsAll h properties
  | leaf info target =>
    cases target with
    | entity e =>
      rw [collectImports]
      exact pairwise_insertSorted h
    | value =>
      rw [collectImports]
      split
      · exact pairwise_insertSorted h
      · exact h
    | idOnly idType =>
      rw [collectImports]
      exact h
    | recursive type =>
      rw [collectImports]
      exact h

theorem pairwise_collectImportsAll {imports : List String} (h : imports.Pairwise (· < ·))
    (ps : List Property) : (collectImportsAll imports ps).Pairwise (· < ·) := by
  cases ps with
  | nil =>
    rw [collectImportsAll]
    exact h
  | cons p ps =>
    rw [collectImportsAll]
    exact pairwise_collectImportsAll (pairwise_collectImports h p) ps

end

section Imports

variable (d : Dto) (source : Name) (mutable : Bool) (entityModule : String)

/-- The imports are strictly sorted. -/
theorem pairwise_imports : (ofDto d source mutable entityModule).imports.Pairwise (· < ·) :=
  pairwise_collectImportsAll .nil d.properties

/-- **The imports of a file are the entities in the fields of its structs.** -/
theorem mem_imports {name : String} :
    name ∈ (ofDto d source mutable entityModule).imports ↔
      OccursIn name (ofDto d source mutable entityModule).structs := by
  have hcollected : name ∈ collectImportsAll [] d.properties ↔ _ :=
    mem_collectImportsAll d.name [(d.name, d.name)] d.properties
  rw [ofDto, hcollected, structsOfDto, occursIn_cons, or_iff_right List.not_mem_nil]
  simp [or_and_right, exists_or, entities_userField]

end Imports

end Rendering

end Projection
