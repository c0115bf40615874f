import Projection.Proofs.Rendering.Layout
import Projection.Proofs.Rendering.Recursion
import Projection.Proofs.Rendering.TopLevel

/-!
# What the names in a file stand for

A field may be of a struct of the same file or of an entity that the file imports. Rendering never
looks a struct up: it writes the name that the struct has where it is rendered, and for a recursive
property the one it finds among the enclosing types, or the bare name of the type if it finds none.
`Rendering.Resolves` says that nothing is missing and nothing is left over in the text of the file:
every such name is that of a struct in the file or of an import, and every import is the type of a
field.

`Source.compile_resolves` proves it for what a source compiles to. The enclosing types of a
recursive property always hold the one that it stands for, so the bare name is never written.
-/

namespace Projection

/-- The property is of a type that the file has a struct for. -/
def Property.isStructured : Property → Bool
  | .nested .. | .leaf _ (.recursive _) => true
  | .leaf _ .value | .leaf _ (.entity _) | .leaf _ (.idOnly _) => false

namespace Rendering

/-- The names in a file for the type `d` stand for something that the file has. -/
structure Resolves (d : Dto) (file : Rendering) : Prop where
  /-- The text of the file has the line with the imports, and the structs with all their fields. -/
  laidOut : file.LaidOut
  /-- Every property, at any depth, has its field in the struct of its type. -/
  placed : ∀ {T outer p}, d.Encloses T outer p →
    ∃ struct ∈ file.structs, struct.name = structNameAt T outer ∧ fieldAt T outer p ∈ struct.fields
  /-- A field that is not of such a property is one that the declaration writes out. -/
  complete : ∀ struct ∈ file.structs, ∀ f ∈ struct.fields,
    (∃ u ∈ d.users, f = userField u) ∨
      ∃ T outer p, d.Encloses T outer p ∧ f = fieldAt T outer p
  /-- The type of a nested or recursive field is written as that of a struct that the text
  declares. -/
  declared : ∀ {T outer p}, d.Encloses T outer p → p.isStructured = true →
    ∃ struct ∈ file.structs, (fieldAt T outer p).type.struct? = some struct.name ∧
      FieldType.Wraps struct.name (fieldAt T outer p).type.text ∧
      ("pub struct " ++ struct.name ++ " \x7b\n").toList <:+: file.text.toList
  /-- The type of a field that holds an entity as a whole is written as that of an import. -/
  imported : ∀ {T outer p}, d.Encloses T outer p → ∀ {e}, p.whole? = some e →
    FieldType.Wraps (Name.simple e) (fieldAt T outer p).type.text ∧ Name.simple e ∈ file.imports
  /-- Every import is the type of such a field. -/
  used : ∀ name ∈ file.imports, ∃ T outer p e, d.Encloses T outer p ∧ p.whole? = some e ∧
    Name.simple e = name ∧ FieldType.Wraps name (fieldAt T outer p).type.text
  sorted : file.imports.Pairwise (· < ·)
  /-- There is no line with imports exactly if there is no such field. -/
  line : ∀ {useLine}, UseLine file.entityModule file.imports useLine →
    (useLine = "" ↔ ∀ {T outer p}, d.Encloses T outer p → p.whole? = none)

/-! ### Structs in the text -/

theorem infix_join_of_mem {piece : String} {pieces : List String} (h : piece ∈ pieces) :
    piece.toList <:+: (String.join pieces).toList := by
  obtain ⟨before, after, rfl⟩ := List.append_of_mem h
  refine ⟨(String.join before).toList, (String.join after).toList, ?_⟩
  simp only [String.join_append, String.join_cons, String.toList_append, List.append_assoc]

theorem infix_append_left {part : List Char} {s : String} (before : String)
    (h : part <:+: s.toList) : part <:+: (before ++ s).toList := by
  rw [String.toList_append]
  exact h.trans (List.suffix_append _ _).isInfix

/-- The text of a file has the declaration of each of its structs. -/
theorem declaration_infix_text {file : Rendering} {struct : Struct}
    (h : struct ∈ file.structs) :
    ("pub struct " ++ struct.name ++ " \x7b\n").toList <:+: file.text.toList := by
  have hstruct : ("pub struct " ++ struct.name ++ " \x7b\n").toList <:+:
      (struct.text file.mutable).toList := by
    refine ⟨("\n/// " ++ roleText struct.role ++ " of `" ++ struct.entity ++ "`.\n" ++
      "#[derive(Debug, Clone, PartialEq)]\n").toList,
      (String.join (struct.fields.map (Field.text (if file.mutable then "pub " else ""))) ++
        "\x7d\n" ++ (if file.mutable then "" else struct.accessors)).toList, ?_⟩
    unfold Struct.text
    simp only [String.toList_append, List.append_assoc]
  exact hstruct.trans
    (infix_append_left _ (infix_join_of_mem (List.mem_map_of_mem h)))

/-! ### Structs that fields are of -/

/-- A type of its own is rendered below the property that has it. -/
theorem struct_of_nested {d : Dto} {T o : Outline} {outer : List Outline} {info : PropertyInfo}
    {properties : List Property} (hp : d.Encloses T outer (.nested info o properties)) :
    ∃ struct ∈ structsOfDto d,
      (fieldAt T outer (.nested info o properties)).type.struct? = some struct.name := by
  have hsub := (rendered_of_encloses hp).2
  rw [structsOf] at hsub
  refine ⟨_, hsub List.mem_cons_self, ?_⟩
  rw [fieldAt, fieldOf, FieldType.struct?_nullable, valueType, FieldType.struct?_collection]
  rfl

/-- The type that a recursive property stands for is one of those around it. -/
theorem struct_of_recursive {d : Dto} {T o : Outline} {outer : List Outline} {info : PropertyInfo}
    (hp : d.Encloses T outer (.leaf info (.recursive o.name))) (ho : o ∈ T :: outer) :
    ∃ struct ∈ structsOfDto d,
      (fieldAt T outer (.leaf info (.recursive o.name))).type.struct? = some struct.name := by
  obtain ⟨b, _, tail, hsuffix, hfound⟩ :=
    structOf_scopesAt_of_mem (List.append_nil (T :: outer)).symm ho
  obtain ⟨struct, hstruct, hname, _⟩ := struct_of_suffix hp hsuffix
  refine ⟨struct, hstruct, ?_⟩
  rw [fieldAt, fieldOf, FieldType.struct?_nullable, valueType, hname, ← hfound]
  cases info.many <;> rfl

/-! ### Fields of properties -/

theorem mem_structsOfAll {parent : String} {scopes : Scopes} {properties : List Property}
    {struct : Struct} :
    struct ∈ structsOfAll parent scopes properties ↔
      ∃ p ∈ properties, struct ∈ structsOf parent scopes p := by
  induction properties with
  | nil => simp [structsOfAll]
  | cons p properties ih => simp [structsOfAll, ih]

/-- The fields in the structs below a property are those of the properties in it. -/
theorem exists_fieldAt_of_mem_structsOf {d : Dto} {T : Outline} {outer : List Outline}
    {p : Property} (hp : d.Encloses T outer p) {struct : Struct}
    (hstruct : struct ∈ structsOf (structNameAt T outer) (scopesAt T outer) p) {f : Field}
    (hf : f ∈ struct.fields) :
    ∃ T' outer' q, d.Encloses T' outer' q ∧ f = fieldAt T' outer' q := by
  cases p with
  | leaf info target =>
    rw [structsOf] at hstruct
    cases hstruct
  | nested info o inner =>
    rw [structsOf] at hstruct
    rcases List.mem_cons.mp hstruct with rfl | hbelow
    · obtain ⟨q, hq, rfl⟩ := List.mem_map.mp hf
      exact ⟨o, T :: outer, q, .inner hp hq, rfl⟩
    · obtain ⟨q, hq, hin⟩ := mem_structsOfAll.mp hbelow
      exact exists_fieldAt_of_mem_structsOf (.inner hp hq) hin hf
termination_by p

/-- The fields of a file are those of the properties, at all depths, and those that the declaration
writes out. -/
theorem exists_of_mem_fields {d : Dto} {struct : Struct} (hstruct : struct ∈ structsOfDto d)
    {f : Field} (hf : f ∈ struct.fields) :
    (∃ u ∈ d.users, f = userField u) ∨
      ∃ T outer p, d.Encloses T outer p ∧ f = fieldAt T outer p := by
  rcases List.mem_cons.mp hstruct with rfl | hbelow
  · rcases List.mem_append.mp hf with hf | hf
    · obtain ⟨p, hp, rfl⟩ := List.mem_map.mp hf
      exact .inr ⟨d.outline, [], p, .top hp, rfl⟩
    · obtain ⟨u, hu, rfl⟩ := List.mem_map.mp hf
      exact .inl ⟨u, hu, rfl⟩
  · obtain ⟨p, hp, hin⟩ := mem_structsOfAll.mp hbelow
    exact .inr (exists_fieldAt_of_mem_structsOf (.top hp) hin hf)

/-! ### Imports that fields are of -/

/-- The imports are the simple names of the entities that properties hold as a whole. -/
theorem mem_imports_iff {d : Dto} {source : Name} {mutable : Bool} {entityModule name : String} :
    name ∈ (ofDto d source mutable entityModule).imports ↔
      ∃ T outer p e, d.Encloses T outer p ∧ p.whole? = some e ∧ Name.simple e = name := by
  rw [mem_imports]
  constructor
  · rintro ⟨struct, hstruct, f, hf, hname⟩
    rcases exists_of_mem_fields hstruct hf with ⟨u, _, rfl⟩ | ⟨T, outer, p, hp, rfl⟩
    · rw [entities_userField] at hname
      cases hname
    · rw [fieldAt, entities_fieldOf, Option.mem_toList, Option.map_eq_some_iff] at hname
      obtain ⟨e, he, rfl⟩ := hname
      exact ⟨T, outer, p, e, hp, he, rfl⟩
  · rintro ⟨T, outer, p, e, hp, he, rfl⟩
    obtain ⟨⟨struct, hstruct, _, _, hfield⟩, _⟩ := rendered_of_encloses hp
    refine ⟨struct, hstruct, _, hfield, ?_⟩
    rw [fieldAt, entities_fieldOf, he]
    exact List.mem_singleton_self _

end Rendering

/-- A nested or recursive field of a compiled type is of a struct in its file. -/
theorem Dto.Arises.struct_of_isStructured {P : Type} {schema : Schema} {defaults : Defaults}
    {entity : Name} {shared : List (Located P Modifier)} {decl : Declaration P}
    {selections : List (Selection P)} {d : Dto}
    (hd : Dto.Arises schema defaults entity shared decl selections d) {T : Outline}
    {outer : List Outline} {p : Property} (hp : d.Encloses T outer p)
    (hstructured : p.isStructured = true) :
    ∃ struct ∈ Rendering.structsOfDto d,
      (Rendering.fieldAt T outer p).type.struct? = some struct.name := by
  cases p with
  | nested info o inner => exact Rendering.struct_of_nested hp
  | leaf info target =>
    cases target with
    | recursive type =>
      -- Selection took the name from an enclosing type that it had found by its entity.
      obtain ⟨_, _, _, _, _, _, hagrees, _⟩ := hd.agrees hp
      obtain ⟨_, _, o, _, hfound, rfl⟩ := hagrees
      exact Rendering.struct_of_recursive hp (List.mem_of_find?_eq_some hfound)
    | value => cases hstructured
    | entity name => cases hstructured
    | idOnly idType => cases hstructured

/-- **Names in a file.** In the file for a type that a source compiles to, every nested or recursive
field, at any depth, is of a struct that the text declares, and every field that holds an entity as
a whole is of an import. The imports are strictly sorted, each of them is the type of such a field,
and the line that brings them in is left out exactly if there is no such field. -/
theorem Source.compile_resolves {P : Type} {schema : Schema} {defaults : Defaults} {s : Source P}
    {types : List Dto} (hs : s.compile schema defaults = .ok types) {d : Dto} (hd : d ∈ types)
    (source : Name) (mutable : Bool) (entityModule : String) :
    Rendering.Resolves d (Rendering.ofDto d source mutable entityModule) := by
  obtain ⟨decl, _, selections, harises⟩ :=
    exists_mem_of_forall₂ (Source.arises_of_compile hs).2 hd
  constructor
  case laidOut => exact Rendering.laidOut _
  case placed =>
    intro T outer p hp
    obtain ⟨⟨struct, hstruct, hname, _, hfield⟩, _⟩ := Rendering.rendered_of_encloses hp
    exact ⟨struct, hstruct, hname, hfield⟩
  case complete =>
    intro struct hstruct f hf
    exact Rendering.exists_of_mem_fields hstruct hf
  case declared =>
    intro T outer p hp hstructured
    obtain ⟨struct, hstruct, hname⟩ := harises.struct_of_isStructured hp hstructured
    exact ⟨struct, hstruct, hname, FieldType.wraps_of_struct? hname,
      Rendering.declaration_infix_text hstruct⟩
  case imported =>
    intro T outer p hp e he
    exact ⟨Rendering.wraps_fieldOf _ _ he,
      Rendering.mem_imports_iff.mpr ⟨T, outer, p, e, hp, he, rfl⟩⟩
  case used =>
    intro name hname
    obtain ⟨T, outer, p, e, hp, he, rfl⟩ := Rendering.mem_imports_iff.mp hname
    exact ⟨T, outer, p, e, hp, he, rfl, Rendering.wraps_fieldOf _ _ he⟩
  case sorted => exact Rendering.pairwise_imports d source mutable entityModule
  case line =>
    intro useLine huse
    rw [huse.eq_empty_iff, List.eq_nil_iff_forall_not_mem]
    constructor
    · intro hnone T outer p hp
      cases he : p.whole? with
      | none => rfl
      | some e =>
        exact absurd (Rendering.mem_imports_iff.mpr ⟨T, outer, p, e, hp, he, rfl⟩) (hnone _)
    · intro hnone name hname
      obtain ⟨_, _, _, e, hp, he, _⟩ := Rendering.mem_imports_iff.mp hname
      rw [hnone hp] at he
      cases he

/-! ### An example

A depot has an address of its own and a manager, who has a deputy and knows the depot. In the view
`Site` the manager is a type of its own that refers back to the site. -/

namespace Depots

open Staff (at_)

def depot : Entity where
  name := "Depot"
  marker := .entity
  attributes := [.id "id" "Long", .embedded "address" "geo.Address",
    .association "manager" "Manager" false]
  distinct := by decide

def address : Entity where
  name := "geo.Address"
  marker := .embeddable
  attributes := [.scalar "street" "String"]
  distinct := by decide

def manager : Entity where
  name := "Manager"
  marker := .entity
  attributes := [.id "id" "Long", .association "deputy" "Manager" false,
    .association "depot" "Depot" false]
  distinct := by decide

def registry : Registry where
  entities := [depot, address, manager]
  graph := some (.ofEntities [depot, address, manager])

/-- The source `export Depot; Site ⟨address, manager ⟨deputy, depot*⟩⟩`. -/
def source : Source Unit where
  entity := at_ "Depot"
  modifiers := []
  declarations := [{
    name := at_ "Site"
    tags := []
    modifiers := []
    body := ⟨[.plain ⟨at_ "address", false, none, none⟩,
      .nested ⟨at_ "manager", false, none, none⟩
        [.plain ⟨at_ "deputy", false, none, none⟩,
          .plain ⟨at_ "depot", true, none, none⟩] ()], ()⟩ }]

def siteType : Outline :=
  ⟨"Depot", "Site", {}, false⟩

def managerType : Outline :=
  ⟨"Manager", "TargetOf_manager", {}, false⟩

/-- The depot of the manager. -/
def home : Property :=
  .leaf ⟨"depot", "depot", none, [], .association "Depot" false, "Site", false, none, false⟩
    (.recursive "Site")

/-- The view. -/
def site : Dto where
  outline := siteType
  tags := []
  mutability := .unspecified
  properties := [
    .leaf ⟨"address", "address", none, [], .scalar (some "geo.Address"), "Address", false, none,
      false⟩ .value,
    .nested ⟨"manager", "manager", none, [], .association "Manager" false, "TargetOf_manager",
      false, none, false⟩ managerType [
        .leaf ⟨"deputy", "deputy", none, [], .association "Manager" false, "Manager", false, none,
          false⟩ (.entity "Manager"),
        home]]
  users := []

theorem site_resolves :
    Registry.finalize ⟨[depot, address, manager], {}, none⟩ = (.ok (), registry) ∧
      source.compile (SchemaStore.schema registry) {} = .ok [site] ∧
      site.Encloses managerType [siteType] home ∧
      (Rendering.fieldAt managerType [siteType] home).type = .box (.struct "Site") ∧
      (Rendering.ofDto site "Depot" true "crate::entities").imports = ["Address", "Manager"] ∧
      Rendering.Resolves site (Rendering.ofDto site "Depot" true "crate::entities") := by
  have hcompiles : source.compile (SchemaStore.schema registry) {} = .ok [site] := rfl
  have hhome : site.Encloses managerType [siteType] home :=
    .inner (.top (List.mem_cons_of_mem _ List.mem_cons_self))
      (List.mem_cons_of_mem _ List.mem_cons_self)
  exact ⟨rfl, hcompiles, hhome, rfl, by decide +kernel,
    Source.compile_resolves hcompiles (List.mem_singleton.mpr rfl) "Depot" true "crate::entities"⟩

end Depots

end Projection
