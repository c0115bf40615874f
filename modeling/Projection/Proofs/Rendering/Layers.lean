import Projection.Proofs.Dto.Distinct
import Projection.Rendering

/-!
# The structs of a file, one by one

A compiled type is a tree of types. `Dto.layers` lists them in the order in which the tree is
walked, each with the attributes that the nested properties on the way to it read. The structs of a
file stand in the same order, and each is the rendering of the type at its place
(`Dto.Arises.renders`): its name is that of the whole type with a word put behind it for every
attribute on the way, and it has a field for every property.
-/

namespace Projection

/-- A type in the tree of a DTO type, and the attributes on the way to it, the outermost first. -/
structure Layer where
  way : List Name
  outline : Outline
  properties : List Property
  users : List UserProperty

namespace Layer

/-- The names in the output. -/
def names (l : Layer) : List Name :=
  l.properties.map (·.info.name) ++ l.users.map (·.name)

/-- The type as it is seen from outside a property that reads `source`. -/
def under (source : Name) (l : Layer) : Layer :=
  { l with way := source :: l.way }

end Layer

namespace Property

mutual

/-- The types in a property. -/
def layers : Property → List Layer
  | .leaf .. => []
  | .nested info o properties =>
    (⟨[], o, properties, []⟩ :: layersAll properties).map (Layer.under info.source)

/-- The types in properties. -/
def layersAll : List Property → List Layer
  | [] => []
  | p :: ps => layers p ++ layersAll ps

end

end Property

/-- The type itself and all types in it. -/
def Dto.layers (d : Dto) : List Layer :=
  ⟨[], d.outline, d.properties, d.users⟩ :: Property.layersAll d.properties

/-! ### Layers are types of the tree -/

section Holds

variable {d : Dto}

mutual

theorem Property.holds_of_mem_layers {T : Outline} {properties : List Property} (p : Property)
    (hT : d.Holds T properties) (hp : p ∈ properties) {l : Layer} (hl : l ∈ p.layers) :
    d.Holds l.outline l.properties ∧ l.users = [] := by
  cases p with
  | leaf info target =>
    rw [Property.layers] at hl
    cases hl
  | nested info o inner =>
    have ho : d.Holds o inner := .inner hT hp
    rw [Property.layers, List.mem_map] at hl
    obtain ⟨below, hbelow, rfl⟩ := hl
    rcases List.mem_cons.mp hbelow with rfl | hbelow
    · exact ⟨ho, rfl⟩
    · have hheld := Property.holds_of_mem_layersAll inner ho (List.Subset.refl inner) hbelow
      exact hheld

theorem Property.holds_of_mem_layersAll {T : Outline} {properties : List Property}
    (ps : List Property) (hT : d.Holds T properties) (hps : ps ⊆ properties) {l : Layer}
    (hl : l ∈ Property.layersAll ps) :
    d.Holds l.outline l.properties ∧ l.users = [] := by
  cases ps with
  | nil =>
    rw [Property.layersAll] at hl
    cases hl
  | cons p ps =>
    obtain ⟨hp, hps⟩ := List.cons_subset.mp hps
    rw [Property.layersAll] at hl
    rcases List.mem_append.mp hl with hl | hl
    · exact Property.holds_of_mem_layers p hT hp hl
    · exact Property.holds_of_mem_layersAll ps hT hps hl

end

end Holds

/-! ### Rendering -/

namespace Rendering

/-- The word for an attribute on the way to a type. -/
def wayWord (source : Name) : String :=
  Text.pascalCase (Selection.nestedTypeName source)

/-- The name of the struct for a type in a type of the name `root`. -/
def layerName (root : Name) (l : Layer) : String :=
  root ++ String.join (l.way.map wayWord)

/-- The struct is the rendering of the type. -/
structure Renders (root : Name) (l : Layer) (struct : Struct) : Prop where
  name : struct.name = layerName root l
  entity : struct.entity = l.outline.entity
  fields : ∃ scopes,
    struct.fields = l.properties.map (fieldOf struct.name scopes) ++ l.users.map userField

theorem layerName_under (root source : Name) (l : Layer) :
    layerName root (l.under source) =
      layerName (structName root (Selection.nestedTypeName source)) l := by
  simp only [layerName, Layer.under, List.map_cons, String.join_cons, structName, wayWord,
    String.append_assoc]

theorem Renders.under {root source : Name} {l : Layer} {struct : Struct}
    (h : Renders (structName root (Selection.nestedTypeName source)) l struct) :
    Renders root (l.under source) struct :=
  ⟨h.name.trans (layerName_under root source l).symm, h.entity, h.fields⟩

section Walk

variable {d : Dto}

/-- The types in `d` have the names of nested types. -/
def NamedBySource (d : Dto) : Prop :=
  ∀ T outer info o properties, d.Encloses T outer (.nested info o properties) →
    o.name = Selection.nestedTypeName info.source

mutual

theorem renders_layers (hd : NamedBySource d) {T : Outline} {outer : List Outline} (p : Property)
    (hp : d.Encloses T outer p) (parent : String) (scopes : Scopes) :
    List.Forall₂ (Renders parent) p.layers (structsOf parent scopes p) := by
  cases p with
  | leaf info target =>
    rw [Property.layers, structsOf]
    exact .nil
  | nested info o inner =>
    have hname : o.name = Selection.nestedTypeName info.source := hd _ _ _ _ _ hp
    rw [Property.layers, structsOf, List.forall₂_map_left_iff, hname]
    refine .cons (Renders.under ⟨?_, rfl, _, (List.append_nil _).symm⟩) ?_
    · simp [layerName]
    · refine (renders_layersAll hd inner (fun q hq => .inner hp hq) _ _).imp ?_
      intro l struct h
      exact h.under

theorem renders_layersAll (hd : NamedBySource d) {T : Outline} {outer : List Outline}
    (ps : List Property) (hps : ∀ p ∈ ps, d.Encloses T outer p) (parent : String)
    (scopes : Scopes) :
    List.Forall₂ (Renders parent) (Property.layersAll ps) (structsOfAll parent scopes ps) := by
  cases ps with
  | nil =>
    rw [Property.layersAll, structsOfAll]
    exact .nil
  | cons p ps =>
    obtain ⟨hp, hps⟩ := List.forall_mem_cons.mp hps
    rw [Property.layersAll, structsOfAll]
    exact List.rel_append (renders_layers hd p hp parent scopes)
      (renders_layersAll hd ps hps parent scopes)

end

end Walk

theorem renders_structsOfDto {d : Dto} (hd : NamedBySource d) :
    List.Forall₂ (Renders d.name) d.layers (structsOfDto d) := by
  refine .cons ⟨?_, rfl, _, rfl⟩ (renders_layersAll hd d.properties (fun p hp => .top hp) _ _)
  simp [layerName]

end Rendering

/-! ### Compiled types -/

section Arises

variable {P : Type} {schema : Schema} {defaults : Defaults} {entity : Name}
  {shared : List (Located P Modifier)} {decl : Declaration P} {selections : List (Selection P)}
  {d : Dto}

theorem Dto.Arises.namedBySource
    (hd : Dto.Arises schema defaults entity shared decl selections d) :
    Rendering.NamedBySource d := by
  intro T outer info o properties hp
  obtain ⟨_, _, s, hground, hof⟩ := hd.origin hp
  obtain ⟨pick, target, type, inner, rfl, rfl, _⟩ := Property.ofSelection_eq_nested hof
  obtain ⟨a, _, ha, hinfo⟩ := Property.info_ofSelection hof
  have hsource : info.source = pick.source.val :=
    calc info.source = a.name := congrArg PropertyInfo.source hinfo
      _ = pick.source.val := (Schema.attribute?_eq_some_iff.mp (Property.bound_eq_ok ha).1).2
  cases hground with
  | nested _ _ _ _ htype _ => rw [hsource, htype]

/-- **The structs of a file are the renderings of the types in a compiled type**, in their order. -/
theorem Dto.Arises.renders (hd : Dto.Arises schema defaults entity shared decl selections d) :
    List.Forall₂ (Rendering.Renders d.name) d.layers (Rendering.structsOfDto d) :=
  Rendering.renders_structsOfDto hd.namedBySource

/-- Every type in a compiled type has distinct names in the output. -/
theorem Dto.Arises.nodup_names (hd : Dto.Arises schema defaults entity shared decl selections d)
    {l : Layer} (hl : l ∈ d.layers) : l.names.Nodup := by
  rcases List.mem_cons.mp hl with rfl | hl
  · exact hd.nodup_propertyNames
  · obtain ⟨hT, husers⟩ :=
      Property.holds_of_mem_layersAll d.properties .top (List.Subset.refl _) hl
    obtain ⟨_, _, _, _, hof⟩ := hd.declared hT
    rw [Layer.names, husers, List.map_nil, List.append_nil,
      ← map_eq_map_of_forall₂ (Property.forall₂_of_ofSelections hof)
        fun _ _ h => (Property.name_ofSelection h).symm]
    exact (Property.nodup_of_ofSelections_empty hof).1

end Arises

end Projection
