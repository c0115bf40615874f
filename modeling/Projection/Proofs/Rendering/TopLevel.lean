import Projection.Proofs.Rendering.Imports
import Projection.Proofs.Rendering.Layers

/-!
# The names at the top of a file

A file brings in the entities that its fields hold as a whole, under their simple names, and has a
struct for each type in the compiled type. The name of a struct is that of the whole type followed
by one word for each attribute on the way. These names may be the same for three reasons:

* two properties of one type have types of their own and the same word for what they read, as two
  properties do that come from two flattened bodies;
* two ways have different words that make up the same text;
* an entity has the name of a struct.

`Source.compile_top_level_distinct_iff` says that there is no other reason, and that each of these
is enough. `Parcels.parcel_structs_clash` is a type with two structs of one name.
-/

namespace Projection

/-- The attribute that a property with a type of its own reads. -/
def Property.nestedSource? : Property → Option Name
  | .leaf .. => none
  | .nested info _ _ => some info.source

namespace Layer

/-- The attributes that the properties with types of their own read. -/
def nestedSources (l : Layer) : List Name :=
  l.properties.filterMap Property.nestedSource?

/-- The words for the attributes on the way. -/
def words (l : Layer) : List String :=
  l.way.map Rendering.wayWord

/-- No two properties have types of their own with the same word. -/
def HasDistinctWords (l : Layer) : Prop :=
  (l.nestedSources.map Rendering.wayWord).Nodup

end Layer

/-! ### Words of the ways -/

namespace Property

theorem layersAll_eq_flatMap (ps : List Property) : layersAll ps = ps.flatMap layers := by
  induction ps with
  | nil => rw [layersAll, List.flatMap_nil]
  | cons p ps ih => rw [layersAll, List.flatMap_cons, ih]

/-- All ways into a property start with its word, and one of them ends there. -/
theorem words_layers_nested (info : PropertyInfo) (o : Outline) (inner : List Property) :
    (nested info o inner).layers.map Layer.words =
      ([] :: (layersAll inner).map Layer.words).map (Rendering.wayWord info.source :: ·) := by
  rw [layers, List.map_map, List.map_cons, List.map_cons, List.map_map]
  rfl

/-- Two properties have no way in common exactly if they have different words. -/
theorem disjoint_words_iff (p q : Property) :
    (p.layers.map Layer.words).Disjoint (q.layers.map Layer.words) ↔
      ∀ x, p.nestedSource? = some x → ∀ y, q.nestedSource? = some y →
        Rendering.wayWord x ≠ Rendering.wayWord y := by
  cases p with
  | leaf info target => simp [nestedSource?, layers]
  | nested info o inner =>
    cases q with
    | leaf info' target => simp [nestedSource?, layers]
    | nested info' o' inner' =>
      simp only [nestedSource?, Option.some.injEq, forall_eq', words_layers_nested]
      constructor
      · intro hdisjoint hword
        refine hdisjoint (List.mem_map_of_mem List.mem_cons_self) ?_
        rw [hword]
        exact List.mem_map_of_mem List.mem_cons_self
      · intro hword way hp hq
        obtain ⟨below, _, rfl⟩ := List.mem_map.mp hp
        obtain ⟨below', _, heq⟩ := List.mem_map.mp hq
        exact hword (List.cons.inj heq).1.symm

end Property

/-- The ways to a type and to the types in it differ exactly if at every type the words do. -/
theorem Layer.nodup_words_iff {top : Layer} (hway : top.way = [])
    (hproperties : ∀ p ∈ top.properties,
      ((p.layers.map words).Nodup ↔ ∀ l ∈ p.layers, l.HasDistinctWords)) :
    ((top :: Property.layersAll top.properties).map words).Nodup ↔
      ∀ l ∈ top :: Property.layersAll top.properties, l.HasDistinctWords := by
  have hnew : top.words ∉ (Property.layersAll top.properties).map words := by
    rw [Property.layersAll_eq_flatMap, List.map_flatMap, List.mem_flatMap, words, hway]
    rintro ⟨p, _, hp⟩
    cases p with
    | leaf info target => simp [Property.layers] at hp
    | nested info o inner => simp [Property.words_layers_nested] at hp
  have hhere : top.properties.Pairwise
      (fun p q => (p.layers.map words).Disjoint (q.layers.map words)) ↔ top.HasDistinctWords := by
    simp only [HasDistinctWords, nestedSources, List.Nodup, List.pairwise_map,
      List.pairwise_filterMap, Property.disjoint_words_iff]
  rw [List.map_cons, List.nodup_cons, and_iff_right hnew, List.forall_mem_cons, ← hhere,
    Property.layersAll_eq_flatMap, List.map_flatMap, List.nodup_flatMap, and_comm]
  simp only [List.mem_flatMap, forall_exists_index, and_imp]
  refine and_congr Iff.rfl ⟨fun h l p hp => (hproperties p hp).mp (h p hp) l, fun h p hp => ?_⟩
  exact (hproperties p hp).mpr fun l => h l p hp

theorem Property.nodup_words_layers (p : Property) :
    (p.layers.map Layer.words).Nodup ↔ ∀ l ∈ p.layers, l.HasDistinctWords := by
  cases p with
  | leaf info target => simp [layers]
  | nested info o inner =>
    have hinner : ∀ q ∈ inner,
        ((q.layers.map Layer.words).Nodup ↔ ∀ l ∈ q.layers, l.HasDistinctWords) :=
      fun q _ => nodup_words_layers q
    have hways := Layer.nodup_words_iff (show (⟨[], o, inner, []⟩ : Layer).way = [] from rfl) hinner
    rw [words_layers_nested, List.nodup_map_iff List.cons_injective, layers, List.forall_mem_map]
    exact hways
termination_by p

/-! ### Imports -/

namespace Rendering

theorem Renders.mem_entities {root : Name} {l : Layer} {struct : Struct}
    (h : Renders root l struct) (name : String) :
    (∃ f ∈ struct.fields, name ∈ f.type.entities) ↔
      ∃ p ∈ l.properties, ∃ e, p.whole? = some e ∧ Name.simple e = name := by
  obtain ⟨scopes, hfields⟩ := h.fields
  simp [hfields, or_and_right, exists_or, entities_fieldOf, entities_userField]

end Rendering

/-- The imports are the simple names of the entities that properties hold as a whole, at any
depth. -/
theorem Dto.Arises.mem_imports {P : Type} {schema : Schema} {defaults : Defaults} {entity : Name}
    {shared : List (Located P Modifier)} {decl : Declaration P} {selections : List (Selection P)}
    {d : Dto} (hd : Dto.Arises schema defaults entity shared decl selections d) (source : Name)
    (mutable : Bool) (entityModule name : String) :
    name ∈ (Rendering.ofDto d source mutable entityModule).imports ↔
      ∃ l ∈ d.layers, ∃ p ∈ l.properties, ∃ e, p.whole? = some e ∧ Name.simple e = name := by
  rw [Rendering.mem_imports]
  constructor
  · rintro ⟨struct, hstruct, hfields⟩
    obtain ⟨l, hl, hrenders⟩ := exists_mem_of_forall₂ hd.renders hstruct
    exact ⟨l, hl, (hrenders.mem_entities name).mp hfields⟩
  · rintro ⟨l, hl, hproperties⟩
    obtain ⟨struct, hstruct, hrenders⟩ := exists_mem_of_forall₂ hd.renders.flip hl
    exact ⟨struct, hstruct, (hrenders.mem_entities name).mpr hproperties⟩

/-- The structs have different names exactly if at every type the words differ and no two ways make
up one text from different words. -/
theorem Dto.nodup_layerNames_iff (d : Dto) :
    (d.layers.map (Rendering.layerName d.name)).Nodup ↔
      (∀ l ∈ d.layers, l.HasDistinctWords) ∧
        ∀ l ∈ d.layers, ∀ m ∈ d.layers,
          String.join l.words = String.join m.words → l.words = m.words := by
  have hwords : (d.layers.map Layer.words).Nodup ↔ ∀ l ∈ d.layers, l.HasDistinctWords :=
    Layer.nodup_words_iff rfl fun p _ => p.nodup_words_layers
  have hnames : d.layers.map (Rendering.layerName d.name) =
      (d.layers.map Layer.words).map (d.name ++ String.join ·) := by
    rw [List.map_map]
    rfl
  rw [hnames, ← hwords]
  constructor
  · intro hnodup
    have hdistinct := hnodup.of_map
    refine ⟨hdistinct, fun l hl m hm hjoin => ?_⟩
    refine (List.nodup_map_iff_inj_on hdistinct).mp hnodup _ (List.mem_map_of_mem hl) _
      (List.mem_map_of_mem hm) ?_
    rw [hjoin]
  · rintro ⟨hdistinct, hjoin⟩
    refine (List.nodup_map_iff_inj_on hdistinct).mpr ?_
    simp only [List.forall_mem_map, String.append_right_inj]
    exact hjoin

/-- **Names at the top of a file.** Take a type that a source compiles to. The imports of its file
and the structs, of the type itself and of all types in it, have different names if and only if
three things hold. In no type do two properties with types of their own have the same word for the
attributes that they read. No two ways into the type make up the same text from different words. No
entity that a property holds as a whole, at any depth, has the simple name of a struct. -/
theorem Source.compile_top_level_distinct_iff {P : Type} {schema : Schema} {defaults : Defaults}
    {s : Source P} {types : List Dto} (hs : s.compile schema defaults = .ok types) {d : Dto}
    (hd : d ∈ types) (source : Name) (mutable : Bool) (entityModule : String) :
    ((Rendering.ofDto d source mutable entityModule).imports ++
        (Rendering.ofDto d source mutable entityModule).structs.map (·.name)).Nodup ↔
      (∀ l ∈ d.layers, (l.nestedSources.map Rendering.wayWord).Nodup) ∧
        (∀ l ∈ d.layers, ∀ m ∈ d.layers,
          String.join l.words = String.join m.words → l.words = m.words) ∧
        ∀ l ∈ d.layers, ∀ p ∈ l.properties, ∀ e, p.whole? = some e →
          ∀ m ∈ d.layers, Name.simple e ≠ Rendering.layerName d.name m := by
  obtain ⟨decl, _, selections, harises⟩ :=
    exists_mem_of_forall₂ (Source.arises_of_compile hs).2 hd
  have hnames : (Rendering.ofDto d source mutable entityModule).structs.map (·.name) =
      d.layers.map (Rendering.layerName d.name) :=
    (map_eq_map_of_forall₂ harises.renders fun _ _ h => h.name.symm).symm
  -- the imports are in strict order, so what remains is that no struct has the name of an import
  have himports : (Rendering.ofDto d source mutable entityModule).imports.Nodup := by
    refine (Rendering.pairwise_imports d source mutable entityModule).imp ?_
    rintro name _ hlt rfl
    exact String.lt_irrefl name hlt
  have hapart : (Rendering.ofDto d source mutable entityModule).imports.Disjoint
      (d.layers.map (Rendering.layerName d.name)) ↔
        ∀ l ∈ d.layers, ∀ p ∈ l.properties, ∀ e, p.whole? = some e →
          ∀ m ∈ d.layers, Name.simple e ≠ Rendering.layerName d.name m := by
    constructor
    · intro hdisjoint l hl p hp e he m hm heq
      exact hdisjoint ((harises.mem_imports _ _ _ _).mpr ⟨l, hl, p, hp, e, he, rfl⟩)
        (heq ▸ List.mem_map_of_mem hm)
    · intro hnone name himport hname
      obtain ⟨l, hl, p, hp, e, he, rfl⟩ := (harises.mem_imports _ _ _ name).mp himport
      obtain ⟨m, hm, heq⟩ := List.mem_map.mp hname
      exact hnone l hl p hp e he m hm heq.symm
  rw [List.nodup_append', hnames, hapart, and_iff_right himports, Dto.nodup_layerNames_iff,
    and_assoc]
  rfl

/-! ### An example

An order is billed to one contact and shipped to another, and a contact has a city. The view
`Parcel` flattens both contacts and selects something else of each city. Both cities are types of
their own in the view, and their structs have one name. -/

namespace Parcels

open Staff (at_)

def order : Entity where
  name := "Order"
  marker := .entity
  attributes := [.id "id" "Long", .association "billing" "Contact" false,
    .association "shipping" "Contact" false]
  distinct := by decide

def contact : Entity where
  name := "Contact"
  marker := .entity
  attributes := [.id "id" "Long", .association "city" "City" false]
  distinct := by decide

def city : Entity where
  name := "City"
  marker := .entity
  attributes := [.id "id" "Long", .scalar "name" "String"]
  distinct := by decide

def registry : Registry where
  entities := [order, contact, city]
  graph := some (.ofEntities [order, contact, city])

/-- The source `export Order; Parcel ⟨flat(billing) ⟨city ⟨id⟩⟩, flat(shipping) ⟨city ⟨name⟩⟩⟩`. -/
def source : Source Unit where
  entity := at_ "Order"
  modifiers := []
  declarations := [{
    name := at_ "Parcel"
    tags := []
    modifiers := []
    body := ⟨[
      .flatten (at_ "billing") none [.nested ⟨at_ "city", false, none, none⟩
        [.plain ⟨at_ "id", false, none, none⟩] ()] (),
      .flatten (at_ "shipping") none [.nested ⟨at_ "city", false, none, none⟩
        [.plain ⟨at_ "name", false, none, none⟩] ()] ()], ()⟩ }]

/-- The city of a contact, under the name that flattening gives it. -/
def cityOf (through name : Name) (property : Property) : Property :=
  .nested ⟨name, "city", none, [through], .association "City" false, "TargetOf_city", false, none,
    false⟩ ⟨"City", "TargetOf_city", {}, false⟩ [property]

/-- The view. -/
def parcel : Dto where
  outline := ⟨"Order", "Parcel", {}, false⟩
  tags := []
  mutability := .unspecified
  properties := [
    cityOf "billing" "billingCity"
      (.leaf ⟨"id", "id", none, [], .id, "Long", false, none, false⟩ .value),
    cityOf "shipping" "shippingCity"
      (.leaf ⟨"name", "name", none, [], .scalar none, "String", false, none, false⟩ .value)]
  users := []

theorem parcel_structs_clash :
    Registry.finalize ⟨[order, contact, city], {}, none⟩ = (.ok (), registry) ∧
      source.compile (SchemaStore.schema registry) {} = .ok [parcel] ∧
      (Rendering.ofDto parcel "Order" true "crate::entities").structs.map (·.name) =
        ["Parcel", "ParcelTargetOfCity", "ParcelTargetOfCity"] ∧
      ¬ ((Rendering.ofDto parcel "Order" true "crate::entities").imports ++
        (Rendering.ofDto parcel "Order" true "crate::entities").structs.map (·.name)).Nodup := by
  have hcompiles : source.compile (SchemaStore.schema registry) {} = .ok [parcel] := rfl
  refine ⟨rfl, hcompiles, rfl, ?_⟩
  rw [Source.compile_top_level_distinct_iff hcompiles (List.mem_singleton.mpr rfl)]
  rintro ⟨hwords, _, _⟩
  have hcities := hwords _ List.mem_cons_self
  exact absurd hcities (List.not_nodup_pair (Rendering.wayWord "city"))

end Parcels

end Projection
