import Projection.Proofs.Rendering.Layers

/-!
# The members of a struct

The names in the output of a type are distinct, but they are not yet the names of fields: a field is
written in lower case words, and a word that cannot name a field gets a mark. Both steps merge
names: `fullName` and `full_name` have the same words, and `self` is marked as `self_`, which is a
name of its own. Two names become one field exactly if they have the same words, or if one of them
is what the other one is marked as (`Rendering.fieldName_eq_iff`).

A struct that is not mutable has an accessor for each field beside its constructor, so there a field
must not be called `new` either. `Source.compile_members_distinct_iff` says which names of a type
are in each other's way, and `Staff.pass_members_clash` is a type where some are.
-/

namespace Projection

namespace Rendering

open Text (snakeCase)

/-- The functions of a struct that is not mutable: the constructor and the accessors. -/
def Struct.functions (s : Struct) : List String :=
  "new" :: s.fields.map (·.name)

/-- Words that cannot name a field with a mark in front of them. -/
def roots : List String :=
  ["self", "super", "crate"]

/-- The mark on a name in lower case words, if it needs one. -/
def marked (snake : String) : String :=
  if roots.contains snake then snake ++ "_"
  else if reserved.contains snake then "r#" ++ snake
  else snake

/-- The first word gets a mark, and is the second with it. -/
def MarksAs (u v : String) : Prop :=
  (u ∈ roots ∧ v = u ++ "_") ∨ (u ∈ reserved ∧ v = "r#" ++ u)

/-- The two names become one field: they have the same words, or one is the other with its mark. -/
def Merge (a b : Name) : Prop :=
  snakeCase a = snakeCase b ∨ MarksAs (snakeCase a) (snakeCase b) ∨
    MarksAs (snakeCase b) (snakeCase a)

/-! ### Marks -/

theorem fieldName_eq (name : Name) : fieldName name = marked (snakeCase name) :=
  rfl

/-- A word is marked in one of two ways, or left as it is. -/
theorem marked_cases (u : String) :
    (u ∈ roots ∧ marked u = u ++ "_") ∨ (u ∈ reserved ∧ marked u = "r#" ++ u) ∨ marked u = u := by
  unfold marked
  split
  · rename_i hroot
    exact .inl ⟨List.contains_iff_mem.mp hroot, rfl⟩
  · split
    · rename_i hreserved
      exact .inr (.inl ⟨List.contains_iff_mem.mp hreserved, rfl⟩)
    · exact .inr (.inr rfl)

/-- A word with a mark needs no other mark. -/
theorem MarksAs.marked_eq {u v : String} (h : MarksAs u v) : marked u = v ∧ marked v = v := by
  have hroots : ∀ u ∈ roots, marked u = u ++ "_" ∧ marked (u ++ "_") = u ++ "_" := by decide
  have hreserved : ∀ u ∈ reserved, marked u = "r#" ++ u ∧ marked ("r#" ++ u) = "r#" ++ u := by
    decide +kernel
  rcases h with ⟨hu, rfl⟩ | ⟨hu, rfl⟩
  · exact hroots u hu
  · exact hreserved u hu

theorem marked_eq_iff (u v : String) :
    marked u = marked v ↔ u = v ∨ MarksAs u v ∨ MarksAs v u := by
  have hapart : ∀ u ∈ roots, ∀ v ∈ reserved, u ++ "_" ≠ "r#" ++ v := by decide +kernel
  constructor
  · intro h
    rcases marked_cases u with ⟨hu, hmu⟩ | ⟨hu, hmu⟩ | hmu <;>
      rcases marked_cases v with ⟨hv, hmv⟩ | ⟨hv, hmv⟩ | hmv <;> rw [hmu, hmv] at h
    · exact .inl ((String.append_left_inj "_").mp h)
    · exact absurd h (hapart u hu v hv)
    · exact .inr (.inl (.inl ⟨hu, h.symm⟩))
    · exact absurd h.symm (hapart v hv u hu)
    · exact .inl ((String.append_right_inj "r#").mp h)
    · exact .inr (.inl (.inr ⟨hu, h.symm⟩))
    · exact .inr (.inr (.inl ⟨hv, h⟩))
    · exact .inr (.inr (.inr ⟨hv, h⟩))
    · exact .inl h
  · rintro (rfl | h | h)
    · rfl
    · exact h.marked_eq.1.trans h.marked_eq.2.symm
    · exact h.marked_eq.2.trans h.marked_eq.1.symm

/-- **Two names become one field** exactly if they merge. -/
theorem fieldName_eq_iff (a b : Name) : fieldName a = fieldName b ↔ Merge a b :=
  marked_eq_iff (snakeCase a) (snakeCase b)

/-- The constructor needs no mark and is nothing with a mark. -/
theorem fieldName_eq_new_iff (a : Name) : fieldName a = "new" ↔ snakeCase a = "new" := by
  have hnew : marked "new" = "new" := by decide
  have hroots : ∀ u ∈ roots, "new" ≠ u ++ "_" := by decide
  have hreserved : ∀ u ∈ reserved, "new" ≠ "r#" ++ u := by decide +kernel
  rw [fieldName_eq, ← hnew, marked_eq_iff, hnew]
  constructor
  · rintro (h | (⟨hu, h⟩ | ⟨hu, h⟩) | (⟨hu, _⟩ | ⟨hu, _⟩))
    · exact h
    · exact absurd h (hroots _ hu)
    · exact absurd h (hreserved _ hu)
    · exact absurd hu (by decide)
    · exact absurd hu (by decide)
  · exact .inl

/-! ### Fields -/

theorem Renders.map_name_fields {root : Name} {l : Layer} {struct : Struct}
    (h : Renders root l struct) : struct.fields.map (·.name) = l.names.map fieldName := by
  obtain ⟨scopes, hfields⟩ := h.fields
  rw [hfields, Layer.names, List.map_append, List.map_append, List.map_map, List.map_map,
    List.map_map, List.map_map]
  rfl

end Rendering

/-- **Members of structs.** Take a type that a source compiles to. Its file has a struct for the
type and for each type in it, and the fields of a struct are the distinct names of its type, written
as fields. Two fields of a struct are called the same if and only if two different names of the type
merge. With the constructor and the accessors, two functions are called the same if and only if two
different names merge or one name is written `new`. -/
theorem Source.compile_members_distinct_iff {P : Type} {schema : Schema} {defaults : Defaults}
    {s : Source P} {types : List Dto} (hs : s.compile schema defaults = .ok types) {d : Dto}
    (hd : d ∈ types) (source : Name) (mutable : Bool) (entityModule : String) :
    List.Forall₂ (fun l struct =>
      struct.name = Rendering.layerName d.name l ∧
      struct.fields.map (·.name) = l.names.map Rendering.fieldName ∧
      ((struct.fields.map (·.name)).Nodup ↔
        ∀ a ∈ l.names, ∀ b ∈ l.names, Rendering.Merge a b → a = b) ∧
      (struct.functions.Nodup ↔
        (∀ a ∈ l.names, ∀ b ∈ l.names, Rendering.Merge a b → a = b) ∧
          ∀ a ∈ l.names, Text.snakeCase a ≠ "new"))
      d.layers (Rendering.ofDto d source mutable entityModule).structs := by
  obtain ⟨decl, _, selections, harises⟩ :=
    exists_mem_of_forall₂ (Source.arises_of_compile hs).2 hd
  have hpairs := List.forall₂_iff_zip.mp harises.renders
  refine List.forall₂_iff_zip.mpr ⟨hpairs.1, ?_⟩
  intro l struct hzip
  have hrenders := hpairs.2 hzip
  have hnames := harises.nodup_names (List.of_mem_zip hzip).1
  have hfields := hrenders.map_name_fields
  have hdistinct : (struct.fields.map (·.name)).Nodup ↔
      ∀ a ∈ l.names, ∀ b ∈ l.names, Rendering.Merge a b → a = b := by
    simp only [hfields, List.nodup_map_iff_inj_on hnames, Rendering.fieldName_eq_iff]
  refine ⟨hrenders.name, hfields, hdistinct, ?_⟩
  have hconstructor : "new" ∉ struct.fields.map (·.name) ↔
      ∀ a ∈ l.names, Text.snakeCase a ≠ "new" := by
    simp only [hfields, List.mem_map, Rendering.fieldName_eq_new_iff, not_exists, not_and, ne_eq]
  rw [Rendering.Struct.functions, List.nodup_cons, hconstructor, hdistinct, and_comm]

/-! ### An example

The view `Pass` has three names of its own for what it selects from an employee. Two of them have
the same words, and the third one is that of the constructor. -/

namespace Staff

/-- The source `export Employee; Pass ⟨name as fullName, id as full_name, id(manager) as new⟩`. -/
def passSource : Source Unit where
  entity := at_ "Employee"
  modifiers := []
  declarations := [{
    name := at_ "Pass"
    tags := []
    modifiers := []
    body := ⟨[.plain ⟨at_ "name", false, none, some (at_ "fullName")⟩,
      .plain ⟨at_ "id", false, none, some (at_ "full_name")⟩,
      .idOnly (at_ "manager") none (some (at_ "new"))], ()⟩ }]

/-- The view. -/
def pass : Dto where
  outline := ⟨"Employee", "Pass", {}, false⟩
  tags := []
  mutability := .unspecified
  properties := [
    .leaf ⟨"fullName", "name", some "fullName", [], .scalar none, "String", false, none, false⟩
      .value,
    .leaf ⟨"full_name", "id", some "full_name", [], .id, "Long", false, none, false⟩ .value,
    .leaf ⟨"new", "manager", some "new", [], .association "Employee" false, "Long", true, none,
      false⟩ (.idOnly "Long")]
  users := []

theorem pass_members_clash :
    passSource.compile (SchemaStore.schema registry) {} = .ok [pass] ∧
      pass.propertyNames = ["fullName", "full_name", "new"] ∧
      ∃ struct ∈ (Rendering.ofDto pass "Employee" false "crate::entities").structs,
        struct.fields.map (·.name) = ["full_name", "full_name", "new"] ∧
        ¬ (struct.fields.map (·.name)).Nodup ∧ ¬ struct.functions.Nodup := by
  have hcompiles : passSource.compile (SchemaStore.schema registry) {} = .ok [pass] := rfl
  have hall := Source.compile_members_distinct_iff hcompiles (List.mem_singleton.mpr rfl)
    "Employee" false "crate::entities"
  obtain ⟨_, _, hfields, hfunctions⟩ := (List.forall₂_cons.mp hall).1
  have hmerge : Rendering.Merge "fullName" "full_name" := .inl rfl
  refine ⟨hcompiles, rfl, _, List.mem_cons_self, rfl, ?_, ?_⟩
  · rw [hfields]
    intro hapart
    exact absurd (hapart _ (by decide) _ (by decide) hmerge) (by decide)
  · rw [hfunctions]
    rintro ⟨_, hnew⟩
    exact hnew "new" (by decide) rfl

end Staff

end Projection
