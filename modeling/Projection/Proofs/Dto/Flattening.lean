import Projection.Proofs.Dto.Binding
import Projection.Proofs.Dto.Nesting
import Projection.Proofs.Selection.Context

/-!
# Flattening is a homomorphism

The body of a flattened attribute adds its properties to the type around it. They are the properties
that the body gives on its own, on the entity behind the attribute, changed in three ways: a name is
put after the leading name, the path is longer by the attribute, and a property without a mark is
also nullable if the attribute is (`PropertyInfo.through`).

Binding a selection and looking at it from before the attribute commute
(`Property.ofSelection_through`), faults included. So only what is checked across the selections of
a type can tell the two declarations apart. The longer paths are as distinct as the paths were, but
two names may become one, as `name` and `Name` do: this is the one thing to ask for.
-/

namespace Projection

variable {P Q : Type} {schema : Schema}

theorem Kind.target?_of_single? {kind : Kind} {target : Name} (h : kind.single? = some target) :
    kind.target? = some target := by
  cases kind with
  | association other many =>
    cases many with
    | true => cases h
    | false => exact h
  | scalar embedded => exact h
  | _ => cases h

/-! ### Properties seen from before an attribute -/

/-- What is known about a selection, seen from before the flattened attribute `a`. -/
def Pick.through (lead : Name) (a : Attribute) (pick : Pick P) : Pick P :=
  { pick with
    name := Name.after pick.name lead
    path := a.name :: pick.path
    throughNullable := pick.throughNullable || a.nullable }

/-- What is known about a property, seen from before the flattened attribute `a` and with `lead`
before its name. A mark keeps deciding whether the property is nullable. -/
def PropertyInfo.through (lead : Name) (a : Attribute) (info : PropertyInfo) : PropertyInfo :=
  { info with
    name := Name.after info.name lead
    path := a.name :: info.path
    nullable := info.nullable || info.nullability.isNone && a.nullable }

/-- The property seen from before a flattened attribute. A type behind it stays as it is. -/
def Property.through (lead : Name) (a : Attribute) : Property → Property
  | .leaf info target => .leaf (info.through lead a) target
  | .nested info outline properties => .nested (info.through lead a) outline properties

/-- The type whose properties are seen from before a flattened attribute of the entity. -/
def Dto.through (d : Dto) (entity lead : Name) (a : Attribute) : Dto :=
  { d with
    outline := { d.outline with entity }
    properties := d.properties.map (.through lead a) }

theorem Selection.through_eq (lead : Name) (a : Attribute) (s : Selection P) :
    s.through lead a = s.mapPick (.through lead a) :=
  rfl

@[simp] theorem Selection.pick_through (lead : Name) (a : Attribute) (s : Selection P) :
    (s.through lead a).pick = s.pick.through lead a := by
  cases s <;> rfl

theorem Pick.origin_through (lead : Name) (a : Attribute) (pick : Pick P) :
    (pick.through lead a).origin = pick.origin.map fun o => (a.name :: o.1, o.2) := by
  unfold Pick.origin Pick.through
  by_cases hexplicit : pick.explicit = true
  · simp [hexplicit]
  · simp [hexplicit]

namespace Property

variable {traits : Traits} {mutable : Bool} {lead : Name} {a : Attribute}

theorem bound_through (pick : Pick P) :
    bound schema traits (pick.through lead a) = bound schema traits pick :=
  rfl

theorem ofForm_through (pick : Pick P) (b : Attribute) (form : Form) :
    ofForm schema (pick.through lead a) b form = ofForm schema pick b form := by
  cases form <;> rfl

theorem isNullable_through (pick : Pick P) (b : Attribute) :
    isNullable traits (pick.through lead a) b =
      (isNullable traits pick b || (pick.nullability.map (·.val)).isNone && a.nullable) := by
  unfold isNullable Pick.through
  rcases pick.nullability with _ | ⟨_ | _, _⟩
  · simp only [Option.map_none, Option.isNone_none, Bool.true_and]
    ac_rfl
  · rfl
  · rfl

theorem infoOf_through (pick : Pick P) (b : Attribute) (type : String) :
    infoOf traits (pick.through lead a) b type = (infoOf traits pick b type).through lead a := by
  simp only [infoOf, PropertyInfo.through, isNullable_through]
  rfl

/-- **Binding commutes with flattening**: a selection seen from before an attribute is bound to the
property seen from there, or refused for the same reason. -/
theorem ofSelection_through (s : Selection P) :
    ofSelection schema traits mutable (s.through lead a) =
      (ofSelection schema traits mutable s).map (.through lead a) := by
  rw [Selection.through_eq]
  cases s with
  | leaf pick form =>
    simp only [Selection.mapPick, ofSelection, bound_through, ofForm_through, infoOf_through]
    cases bound schema traits pick with
    | error fault => rfl
    | ok b =>
      simp only [bind, Except.bind]
      cases ofForm schema pick b form <;> rfl
  | nested pick entity type inner =>
    simp only [Selection.mapPick, ofSelection, bound_through, infoOf_through]
    cases bound schema traits pick with
    | error fault => rfl
    | ok b =>
      simp only [bind, Except.bind]
      cases ofSelections schema traits mutable type {} inner <;> rfl

theorem forall₂_through {selections : List (Selection P)} {properties : List Property} :
    List.Forall₂ (fun s p => ofSelection schema traits mutable s = .ok p)
        (selections.map (.through lead a)) properties ↔
      ∃ inner, List.Forall₂ (fun s p => ofSelection schema traits mutable s = .ok p) selections
        inner ∧ properties = inner.map (.through lead a) := by
  constructor
  · intro h
    induction selections generalizing properties with
    | nil =>
      cases h
      exact ⟨[], .nil, rfl⟩
    | cons s selections ih =>
      cases h with
      | @cons _ p _ properties hp hrest =>
        obtain ⟨inner, hinner, rfl⟩ := ih hrest
        rw [ofSelection_through] at hp
        cases hs : ofSelection schema traits mutable s with
        | error fault =>
          rw [hs] at hp
          cases hp
        | ok q =>
          rw [hs] at hp
          cases hp
          exact ⟨q :: inner, .cons hs hinner, rfl⟩
  · rintro ⟨inner, hinner, rfl⟩
    rw [List.forall₂_map_left_iff, List.forall₂_map_right_iff]
    refine hinner.imp ?_
    intro s p hp
    rw [ofSelection_through, hp]
    rfl

/-- **The properties of a flattened body** are those of the body, seen from before the attribute, if
their names stay distinct. -/
theorem ofSelections_through {type : Name} {selections : List (Selection P)}
    {properties : List Property} :
    ofSelections schema traits mutable type {} (selections.map (.through lead a)) =
        .ok properties ↔
      ∃ inner, ofSelections schema traits mutable type {} selections = .ok inner ∧
        (inner.map fun p => Name.after p.info.name lead).Nodup ∧
        properties = inner.map (.through lead a) := by
  have hpaths : Function.Injective fun o : List Name × Name => (a.name :: o.1, o.2) := by
    intro o o' h
    simpa [Prod.ext_iff] using h
  have horigins : (selections.map (Selection.through lead a)).filterMap (·.pick.origin) =
      (selections.filterMap (·.pick.origin)).map fun o => (a.name :: o.1, o.2) := by
    rw [List.filterMap_map, List.map_filterMap]
    congr 1
    funext s
    rw [Function.comp_apply, Selection.pick_through, Pick.origin_through]
  have hnames (inner : List Property)
      (hinner : List.Forall₂ (fun s p => ofSelection schema traits mutable s = .ok p) selections
        inner) : (selections.map (Selection.through lead a)).map Selection.name =
          inner.map fun p => Name.after p.info.name lead := by
    rw [List.map_map]
    refine map_eq_map_of_forall₂ hinner ?_
    intro s p hp
    rw [name_ofSelection hp, Function.comp_apply, Selection.name, Selection.pick_through]
    rfl
  simp only [ofSelections_eq_ok_iff, forall₂_through, horigins, List.nodup_map_iff hpaths]
  constructor
  · rintro ⟨⟨inner, hinner, rfl⟩, hafter, hreads⟩
    rw [hnames inner hinner] at hafter
    -- Names that are distinct after `lead` were distinct without it. The converse fails: `lead`
    -- hides the case of the first letter.
    have hbefore : (inner.map (·.info.name)).Nodup := by
      refine .of_map (Name.after · lead) ?_
      rwa [List.map_map]
    rw [← map_eq_map_of_forall₂ hinner fun _ _ hp => (name_ofSelection hp).symm] at hbefore
    exact ⟨inner, ⟨hinner, hbefore, hreads⟩, hafter, rfl⟩
  · rintro ⟨inner, ⟨hinner, _, hreads⟩, hafter, rfl⟩
    rw [hnames inner hinner]
    exact ⟨⟨inner, hinner, rfl⟩, hafter, hreads⟩

end Property

/-! ### Declarations -/

/-- The only item of a declaration selects what its body selects on its own, from before the
attribute. -/
theorem Selection.ofBody_flatten {entity target : Name} {property : Located P Name}
    {a : Attribute} {items : List (Item P)}
    (ha : schema.attribute? entity property.val = some a) (htarget : a.kind.single? = some target)
    (hrec : Item.anyRecursion items = false) (huser : ∀ item ∈ items, item.user? = none)
    (type : Name) (lead : Option (Located P Name)) (extent : P) :
    ofBody schema entity type ⟨[.flatten property lead items extent], extent⟩ =
      (ofBody schema target type ⟨items, extent⟩).map
        (List.map (through ((lead.map (·.val)).getD property.val) a)) := by
  have hplace : Place.flatten ≠ Place.group := by decide
  let site : Site :=
    { entity, scopes := [⟨entity, type⟩], explicit := [property.val], place := .declaration }
  have hflattened : flattened schema site property = .ok (a, target) :=
    flattened_of_single ha htarget
  have hinner := bodyOf_eq_ofBody schema hrec huser target type [⟨entity, type⟩] hplace extent
  rw [← hinner, ofBody, bodyOf_of_negatives_eq_nil rfl]
  change ofItems schema site [] [.flatten property lead items extent] = _
  rw [ofItems_singleton site rfl, ofItem, hflattened]
  rfl

section Declarations

variable {entity target : Name} {a : Attribute} {items : List (Item P)}

/-- **A flattened body gives the type that it gives on its own**, seen from before the attribute. -/
theorem Dto.ofDeclaration_flatten (defaults : Defaults) (shared : List (Located P Modifier))
    (decl : Declaration P) (property : Located P Name) (lead : Option (Located P Name)) (extent : P)
    (d : Dto) (ha : schema.attribute? entity property.val = some a)
    (htarget : a.kind.single? = some target) (hrec : Item.anyRecursion items = false)
    (huser : ∀ item ∈ items, item.user? = none) :
    Dto.ofDeclaration schema defaults entity shared
        { decl with body := ⟨[.flatten property lead items extent], extent⟩ } = .ok d ↔
      ∃ alone, Dto.ofDeclaration schema defaults target shared
          { decl with body := ⟨items, extent⟩ } = .ok alone ∧
        (alone.properties.map fun p =>
          Name.after p.info.name ((lead.map (·.val)).getD property.val)).Nodup ∧
        d = alone.through entity ((lead.map (·.val)).getD property.val) a := by
  have husers : (⟨items, extent⟩ : Body P).users = [] := Body.users_eq_nil huser
  have houter : (⟨[.flatten property lead items extent], extent⟩ : Body P).users = [] := rfl
  simp only [Dto.ofDeclaration, husers, houter, UserProperty.ofItems, bind_eq_ok, map_eq_ok,
    pure_eq_ok, Selection.ofBody_flatten ha htarget hrec huser]
  constructor
  · rintro ⟨_, ⟨selections, hselected, rfl⟩, traits, htraits, mutability, hmutability, properties,
      hproperties, users, hnone, rfl⟩
    obtain ⟨inner, hof, hnames, rfl⟩ := Property.ofSelections_through.mp hproperties
    exact ⟨_, ⟨selections, hselected, traits, htraits, mutability, hmutability, inner, hof, users,
      hnone, rfl⟩, hnames, rfl⟩
  · rintro ⟨_, ⟨selections, hselected, traits, htraits, mutability, hmutability, inner, hof, users,
      hnone, rfl⟩, hnames, rfl⟩
    exact ⟨_, ⟨selections, hselected, rfl⟩, traits, htraits, mutability, hmutability, _,
      Property.ofSelections_through.mpr ⟨inner, hof, hnames, rfl⟩, users, hnone, rfl⟩

end Declarations

/-! ### Sources -/

/-- **Flattening is a homomorphism.** Let the attribute `property` of an entity lead to one entity
`target`. A declaration with nothing but `property`, flattened after the name `lead`, compiles
exactly if the declaration with that body compiles on `target` and the names of its properties, each
with its first letter in upper case after `lead`, are distinct. Then it has these properties, under
these names, with `property` before each path, and nullable also if `property` is, unless they have
a mark. -/
theorem Source.compile_flattened_body {r r' : Registry} (hr : r.finalize = (.ok (), r'))
    (defaults : Defaults) {entity property target : Name} {a : Attribute}
    (ha : (SchemaStore.schema r').attribute? entity property = some a)
    (htarget : a.kind.single? = some target) (lead : Option Name)
    (shared : List (Located Unit Modifier)) (decl : Declaration Unit) {items : List (Item Unit)}
    (hrec : Item.anyRecursion items = false) (huser : ∀ item ∈ items, item.user? = none)
    {outer : Source P} {inner : Source Q}
    (houter : outer.bare = single ⟨entity, ()⟩ shared { decl with
      body := ⟨[.flatten ⟨property, ()⟩ (lead.map (⟨·, ()⟩)) items ()], ()⟩ })
    (hinner : inner.bare = single ⟨target, ()⟩ shared { decl with body := ⟨items, ()⟩ })
    (types : List Dto) :
    outer.compile (SchemaStore.schema r') defaults = .ok types ↔
      ∃ alone, inner.compile (SchemaStore.schema r') defaults = .ok [alone] ∧
        (alone.properties.map fun p =>
          lead.getD property ++ Text.capitalize p.info.name).Nodup ∧
        types = [alone.through entity (lead.getD property) a] := by
  obtain ⟨hdeclares, _⟩ := Schema.attribute?_eq_some_iff.mp ha
  have hentity := hdeclares.isSome_entity?
  have hknown : ((SchemaStore.schema r').entity? target).isSome :=
    Registry.lookup_target hr hdeclares (Kind.target?_of_single? htarget)
  have hlead : ((lead.map fun n => (⟨n, ()⟩ : Located Unit Name)).map (·.val)).getD property =
      lead.getD property := by
    cases lead <;> rfl
  rw [compile_eq_ok_of_bare houter hentity]
  simp only [compile_eq_ok_of_bare hinner hknown]
  constructor
  · rintro ⟨d, hd, rfl⟩
    obtain ⟨alone, halone, hnames, rfl⟩ :=
      (Dto.ofDeclaration_flatten defaults shared decl ⟨property, ()⟩ _ () d ha htarget hrec
        huser).mp hd
    rw [hlead] at hnames ⊢
    exact ⟨alone, ⟨alone, halone, rfl⟩, hnames, rfl⟩
  · rintro ⟨_, ⟨alone, halone, hsame⟩, hnames, rfl⟩
    obtain rfl := List.singleton_inj.mp hsame
    refine ⟨_, (Dto.ofDeclaration_flatten defaults shared decl ⟨property, ()⟩ _ () _ ha htarget
      hrec huser).mpr ⟨_, halone, ?_, ?_⟩, rfl⟩
    · rw [hlead]
      exact hnames
    · rw [hlead]

/-! ### An example

The manager of an employee may be missing, so flattening makes the id of the manager nullable, but
not the name, which has a mark. The twin items put out `title` and `Title`; flattened, both become
`bossTitle`. -/

namespace Staff

/-- The items `id, name!, manager ⟨name⟩`. -/
def bossItems : List (Item Unit) :=
  [.plain ⟨at_ "id", false, none, none⟩, .plain ⟨at_ "name", false, some (at_ .nonNull), none⟩,
    .nested ⟨at_ "manager", false, none, none⟩ [.plain ⟨at_ "name", false, none, none⟩] ()]

/-- The items `name as title, id as Title`. -/
def twinItems : List (Item Unit) :=
  [.plain ⟨at_ "name", false, none, some (at_ "title")⟩,
    .plain ⟨at_ "id", false, none, some (at_ "Title")⟩]

/-- The source `export Employee; input Boss ⟨items⟩`. -/
def bossSource (items : List (Item Unit)) : Source Unit :=
  .single (at_ "Employee") [] ⟨at_ "Boss", [], [at_ .input], ⟨items, ()⟩⟩

/-- The source `export Employee; input Boss ⟨flat(manager) as boss ⟨items⟩⟩`. -/
def flatBossSource (items : List (Item Unit)) : Source Unit :=
  bossSource [.flatten (at_ "manager") (some (at_ "boss")) items ()]

theorem boss_is_flattened :
    (∃ alone, (bossSource bossItems).compile (SchemaStore.schema registry) {} = .ok [alone] ∧
      ∃ d, (flatBossSource bossItems).compile (SchemaStore.schema registry) {} = .ok [d] ∧
        alone.properties.map (fun p => (p.info.name, p.info.path, p.info.nullable)) =
          [("id", [], false), ("name", [], false), ("manager", [], true)] ∧
        d.properties.map (fun p => (p.info.name, p.info.path, p.info.nullable)) =
          [("bossId", ["manager"], true), ("bossName", ["manager"], false),
            ("bossManager", ["manager"], true)]) ∧
      (∃ alone, (bossSource twinItems).compile (SchemaStore.schema registry) {} = .ok [alone]) ∧
      ¬ ∃ types, (flatBossSource twinItems).compile (SchemaStore.schema registry) {} =
        .ok types := by
  have hfinal : Registry.finalize ⟨[employee], {}, none⟩ = (.ok (), registry) := rfl
  have hattribute : (SchemaStore.schema registry).attribute? "Employee" "manager" =
      some { Attribute.association "manager" "Employee" false with nullable := true } := rfl
  have hflat (items : List (Item Unit)) (hrec : Item.anyRecursion items = false)
      (huser : ∀ item ∈ items, item.user? = none)
      (hbare : (bossSource items).bare = bossSource items)
      (hflatBare : (flatBossSource items).bare = flatBossSource items) :=
    Source.compile_flattened_body hfinal {} hattribute rfl (some "boss") []
      ⟨at_ "Boss", [], [at_ .input], ⟨[], ()⟩⟩ hrec huser hflatBare hbare
  have hboss := hflat bossItems rfl (by simp [bossItems, Item.user?]) rfl rfl
  have htwins := hflat twinItems rfl (by simp [twinItems, Item.user?]) rfl rfl
  refine ⟨⟨_, rfl, _, (hboss _).mpr ⟨_, rfl, by decide, rfl⟩, rfl, rfl⟩, ⟨_, rfl⟩, ?_⟩
  rintro ⟨types, htypes⟩
  obtain ⟨alone, halone, hnames, _⟩ := (htwins types).mp htypes
  cases halone
  exact absurd hnames (by decide)

end Staff

end Projection
