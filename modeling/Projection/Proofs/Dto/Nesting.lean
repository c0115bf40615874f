import Projection.Proofs.Dto.Names
import Projection.Proofs.Schema.Route
import Projection.Proofs.Source.Formatting

/-!
# Nested bodies are compiled as if they stood alone

The body of a nested property becomes a type of its own. Nothing of the declaration around it has a
part in that type but the modifiers and the mutability: the body of `p` in `V ⟨p ⟨items⟩⟩` gives the
properties that the declaration `V ⟨items⟩` gives on the entity behind `p`.

Two things of a site can be seen from inside a body. A recursive property looks for an enclosing
type, so the items must have none at any depth (`Item.hasRecursion`). And a property that the user
defines may stand only directly in a declaration, so the body must have none of its own. What items
select is then the same at both sites (`Selection.ofItems_scopes`, `Selection.ofItems_place`), and
the name of a type only tells its faults apart (`Property.ofSelections_ok_of_type`).
-/

namespace Projection

variable {P Q : Type} {schema : Schema}

namespace Item

mutual

/-- The item is a recursive property or has one in its bodies. -/
def hasRecursion : Item P → Bool
  | .plain head => head.recursive
  | .nested head items _ => head.recursive || anyRecursion items
  | .flatten _ _ items _ => anyRecursion items
  | .group _ items _ => anyRecursion items
  | .bundle .. | .idOnly .. | .negative _ | .user _ => false

/-- One of the items has a recursive property. -/
def anyRecursion : List (Item P) → Bool
  | [] => false
  | item :: items => hasRecursion item || anyRecursion items

end

end Item

/-! ### What items see of their site -/

namespace Selection

-- By recursion on the syntax, as `ofItem` and `ofItems` are.
mutual

/-- Only recursive properties look at the enclosing types. -/
theorem ofItem_scopes (site : Site) (scopes : List Scope) (seen : List (Located P Name)) :
    ∀ item : Item P, item.hasRecursion = false →
      ofItem schema { site with scopes } seen item = ofItem schema site seen item
  | .bundle name nullability, _ => by
    rw [ofItem, ofItem]
    rfl
  | .negative name, _ => by
    rw [ofItem, ofItem]
  | .user item, _ => by
    rw [ofItem, ofItem]
  | .plain head, h => by
    have hrec : head.recursive = false := h
    rw [ofItem, ofItem, plain, plain, hrec]
    rfl
  | .nested head items extent, h => by
    obtain ⟨hrec, hitems⟩ : head.recursive = false ∧ Item.anyRecursion items = false := by
      simpa [Item.hasRecursion] using h
    rw [ofItem, ofItem]
    simp only [hrec]
    cases schema.attribute? site.entity head.name.val with
    | none => rfl
    | some a =>
      cases htarget : a.kind.target? with
      | none => simp only [htarget]
      | some target =>
        simp only [htarget]
        let inside : Site :=
          { entity := target, scopes := ⟨target, nestedTypeName head.name.val⟩ :: site.scopes
            explicit := explicitNamesAll items, place := .nested }
        rw [ofItems_scopes inside (⟨target, nestedTypeName head.name.val⟩ :: scopes) [] items
          hitems]
  | .idOnly property nullability newName, _ => by
    rw [ofItem, ofItem]
    rfl
  | .flatten property lead items extent, h => by
    have hitems : Item.anyRecursion items = false := h
    rw [ofItem, ofItem]
    congr 1
    funext ⟨a, target⟩
    let inside : Site :=
      { entity := target, scopes := site.scopes, explicit := explicitNamesAll items
        place := .flatten }
    simp only
    rw [ofItems_scopes inside scopes [] items hitems]
  | .group pattern items extent, h => by
    have hitems : Item.anyRecursion items = false := h
    rw [ofItem, ofItem]
    let inside : Site := { site with place := .group, pattern := some pattern.val }
    rw [ofItems_scopes inside scopes [] items hitems]

theorem ofItems_scopes (site : Site) (scopes : List Scope) (seen : List (Located P Name)) :
    ∀ items : List (Item P), Item.anyRecursion items = false →
      ofItems schema { site with scopes } seen items = ofItems schema site seen items
  | [], _ => by
    rw [ofItems, ofItems]
  | item :: items, h => by
    obtain ⟨hitem, hitems⟩ : item.hasRecursion = false ∧ Item.anyRecursion items = false := by
      simpa [Item.anyRecursion] using h
    rw [ofItems, ofItems, ofItem_scopes site scopes seen item hitem,
      ofItems_scopes site scopes _ items hitems]

end

/-- Apart from what the user defines, an item does not look at the place of its body, unless that is
a group. -/
theorem ofItem_place (site : Site) {place : Place} (seen : List (Located P Name)) {item : Item P}
    (hplace : place ≠ .group) (hsite : site.place ≠ .group) (huser : item.user? = none) :
    ofItem schema { site with place } seen item = ofItem schema site seen item := by
  cases item with
  | negative name => simp [ofItem, hplace, hsite]
  | group pattern items extent => simp [ofItem, hplace, hsite]
  | user item => cases huser
  | nested head items extent => rw [ofItem, ofItem]
  | _ =>
    rw [ofItem, ofItem]
    rfl

theorem ofItems_place (site : Site) {place : Place} (seen : List (Located P Name))
    {items : List (Item P)} (hplace : place ≠ .group) (hsite : site.place ≠ .group)
    (huser : ∀ item ∈ items, item.user? = none) :
    ofItems schema { site with place } seen items = ofItems schema site seen items := by
  induction items generalizing seen with
  | nil => rw [ofItems, ofItems]
  | cons item items ih =>
    obtain ⟨hitem, hitems⟩ := List.forall_mem_cons.mp huser
    rw [ofItems, ofItems, ofItem_place site seen hplace hsite hitem, ih _ hitems]

/-- A body selects the same in every type and place. -/
theorem bodyOf_eq_ofBody (schema : Schema) {items : List (Item P)}
    (hrec : Item.anyRecursion items = false) (huser : ∀ item ∈ items, item.user? = none)
    (entity type : Name) (scopes : List Scope) {place : Place} (hplace : place ≠ .group)
    (extent : P) :
    bodyOf items (ofItems schema
      { entity, scopes, explicit := explicitNamesAll items, place } [] items) =
      ofBody schema entity type ⟨items, extent⟩ := by
  let alone : Site :=
    { entity, scopes := [⟨entity, type⟩], explicit := explicitNamesAll items
      place := .declaration }
  have hsite : ofItems schema { alone with scopes, place } [] items =
      ofItems schema alone [] items :=
    calc ofItems schema { alone with scopes, place } [] items
      _ = ofItems schema { alone with place } [] items :=
        ofItems_scopes { alone with place } scopes [] items hrec
      _ = ofItems schema alone [] items :=
        ofItems_place alone [] hplace Place.noConfusion huser
  exact congrArg (bodyOf items) hsite

/-- A body that takes nothing away selects what its items do. -/
theorem bodyOf_of_negatives_eq_nil {items : List (Item P)} (h : negatives items = [])
    (selected : Except (Fault P) (List (Selection P))) : bodyOf items selected = selected := by
  rw [bodyOf, h]
  cases selected <;> rfl

theorem ofItems_singleton (site : Site) (hpattern : site.pattern = none)
    (seen : List (Located P Name)) (item : Item P) :
    ofItems schema site seen [item] = ofItem schema site seen item := by
  rw [ofItems, ofItems, hpattern]
  cases ofItem schema site seen item with
  | error fault => rfl
  | ok selected => exact congrArg Except.ok (List.append_nil selected)

/-- The only item of a declaration selects one property, with what its body selects on its own. -/
theorem ofBody_nested {entity target : Name} {head : Selected P} {a : Attribute}
    {items : List (Item P)} (hplain : head.recursive = false)
    (ha : schema.attribute? entity head.name.val = some a) (htarget : a.kind.target? = some target)
    (hrec : Item.anyRecursion items = false) (huser : ∀ item ∈ items, item.user? = none)
    (type : Name) (extent : P) :
    ofBody schema entity type ⟨[.nested head items extent], extent⟩ =
      (ofBody schema target type ⟨items, extent⟩).map fun inner =>
        [nested (plainPick entity head) target (nestedTypeName head.name.val) inner] := by
  have hplace : Place.nested ≠ Place.group := by decide
  have hinner := bodyOf_eq_ofBody schema hrec huser target type
    [⟨target, nestedTypeName head.name.val⟩, ⟨entity, type⟩] hplace extent
  rw [← hinner, ofBody, bodyOf_of_negatives_eq_nil rfl, ofItems_singleton _ rfl, ofItem]
  simp only [hplain, ha, htarget]
  rfl

end Selection

/-! ### Types -/

namespace Property

variable {traits : Traits} {mutable : Bool}

/-- The name of the type stands only in the words of a fault. -/
theorem ofSelections_ok_of_type {type : Name} {taken : Taken P} {selections : List (Selection P)}
    {properties : List Property}
    (h : ofSelections schema traits mutable type taken selections = .ok properties)
    (type' : Name) :
    ofSelections schema traits mutable type' taken selections = .ok properties := by
  induction selections generalizing taken properties with
  | nil => exact h
  | cons s selections ih =>
    simp only [ofSelections, bind_eq_ok, pure_eq_ok] at h ⊢
    obtain ⟨_, horigin, p, hp, _, houtput, rest, hrest, rfl⟩ := h
    have houtput' : taken.checkOutput type' s.pick = .ok () := by
      unfold Taken.checkOutput at houtput ⊢
      split at houtput
      · cases houtput
      · rfl
    exact ⟨(), horigin, p, hp, (), houtput', rest, ih hrest, rfl⟩

/-- A selection of its own body has nothing before it to clash with. -/
theorem ofSelections_singleton_nested {pick : Pick P} {entity inner type : Name}
    {selections : List (Selection P)} {properties : List Property} :
    ofSelections schema traits mutable type {} [.nested pick entity inner selections] =
        .ok properties ↔
      ∃ a nested, bound schema traits pick = .ok a ∧
        ofSelections schema traits mutable inner {} selections = .ok nested ∧
        properties =
          [.nested (infoOf traits pick a inner) ⟨entity, inner, traits, mutable⟩ nested] := by
  have horigin : Taken.checkOrigin {} pick = .ok () := by
    unfold Taken.checkOrigin
    cases origin? pick <;> rfl
  simp only [ofSelections, ofSelection, Selection.pick, horigin, bind_eq_ok, pure_eq_ok]
  constructor
  · rintro ⟨_, _, _, ⟨a, ha, nested, hnested, rfl⟩, _, _, _, hrest, rfl⟩
    cases hrest
    exact ⟨a, nested, ha, hnested, rfl⟩
  · rintro ⟨a, nested, ha, hnested, rfl⟩
    exact ⟨(), trivial, _, ⟨a, ha, nested, hnested, rfl⟩, (), rfl, [], rfl, rfl⟩

/-- An attribute that leads to an entity may always be selected. -/
theorem bound_eq_ok_of_target {pick : Pick P} {a : Attribute} {target : Name}
    (ha : schema.attribute? pick.entity pick.source.val = some a)
    (htarget : a.kind.target? = some target) (hmark : pick.nullability = none) :
    bound schema traits pick = .ok a := by
  have hkind : checkKind schema traits pick a = .ok () := by
    unfold checkKind
    split
    · rename_i hdeleted
      rw [hdeleted] at htarget
      cases htarget
    · rename_i hcomputed
      rw [hcomputed] at htarget
      cases htarget
    · rfl
  simp only [bound, attributeOf, ha, hmark, bind_eq_ok, pure_eq_ok]
  exact ⟨a, rfl, (), hkind, (), rfl, rfl⟩

end Property

theorem Body.users_eq_nil {body : Body P} (h : ∀ item ∈ body.items, item.user? = none) :
    body.users = [] := by
  rw [Body.users_eq]
  exact List.filterMap_eq_nil_iff.mpr h

section Declarations

variable {entity target : Name} {a : Attribute} {items : List (Item P)}

/-- The type with its properties behind one property of an entity. -/
def Dto.behind (d : Dto) (entity : Name) (info : PropertyInfo) : Dto :=
  { d with
    outline := { d.outline with entity }
    properties := [.nested info { d.outline with name := info.type } d.properties] }

/-- **A body below one property gives the type that it gives on its own**, behind that property. -/
theorem Dto.ofDeclaration_nested (defaults : Defaults) (shared : List (Located P Modifier))
    (decl : Declaration P) (head : Selected P) (extent : P) (d : Dto)
    (hplain : head.recursive = false)
    (hmark : head.nullability = none)
    (ha : schema.attribute? entity head.name.val = some a) (htarget : a.kind.target? = some target)
    (hrec : Item.anyRecursion items = false) (huser : ∀ item ∈ items, item.user? = none) :
    Dto.ofDeclaration schema defaults entity shared
        { decl with body := ⟨[.nested head items extent], extent⟩ } = .ok d ↔
      ∃ alone, Dto.ofDeclaration schema defaults target shared
          { decl with body := ⟨items, extent⟩ } = .ok alone ∧
        d = alone.behind entity (Property.infoOf alone.outline.traits
          (Selection.plainPick entity head) a (Selection.nestedTypeName head.name.val)) := by
  have hbound (traits : Traits) :
      Property.bound schema traits (Selection.plainPick entity head) = .ok a :=
    Property.bound_eq_ok_of_target ha htarget hmark
  have husers : (⟨items, extent⟩ : Body P).users = [] := Body.users_eq_nil huser
  have houter : (⟨[.nested head items extent], extent⟩ : Body P).users = [] := rfl
  simp only [Dto.ofDeclaration, husers, houter, UserProperty.ofItems, bind_eq_ok, map_eq_ok,
    pure_eq_ok, Selection.ofBody_nested hplain ha htarget hrec huser]
  constructor
  · rintro ⟨_, ⟨inner, hinner, rfl⟩, traits, htraits, mutability, hmutability, properties,
      hproperties, users, hnone, rfl⟩
    obtain ⟨b, nested, hb, hnested, rfl⟩ := Property.ofSelections_singleton_nested.mp hproperties
    obtain rfl : b = a := Except.ok.inj (hb.symm.trans (hbound traits))
    exact ⟨_, ⟨inner, hinner, traits, htraits, mutability, hmutability, nested,
      Property.ofSelections_ok_of_type hnested _, users, hnone, rfl⟩, rfl⟩
  · rintro ⟨_, ⟨inner, hinner, traits, htraits, mutability, hmutability, nested, hnested, users,
      hnone, rfl⟩, rfl⟩
    exact ⟨_, ⟨inner, hinner, rfl⟩, traits, htraits, mutability, hmutability, _,
      Property.ofSelections_singleton_nested.mpr ⟨a, nested, hbound traits,
        Property.ofSelections_ok_of_type hnested _, rfl⟩, users, hnone, rfl⟩

end Declarations

/-! ### Sources -/

namespace Source

variable {defaults : Defaults}

/-- Positions have no part in the types of a source. -/
theorem compile_bare_eq_ok {s : Source P} {types : List Dto} :
    s.bare.compile schema defaults = .ok types ↔ s.compile schema defaults = .ok types := by
  rw [bare, compile_move]
  cases s.compile schema defaults with
  | ok types' => simp
  | error fault => simp

/-- The source with one declaration. -/
def single (entity : Located P Name) (shared : List (Located P Modifier)) (decl : Declaration P) :
    Source P :=
  ⟨entity, shared, [decl]⟩

theorem compile_single_eq_ok {entity : Located P Name} {shared : List (Located P Modifier)}
    {decl : Declaration P} {types : List Dto} :
    (single entity shared decl).compile schema defaults = .ok types ↔
      (schema.entity? entity.val).isSome ∧
        ∃ d, Dto.ofDeclaration schema defaults entity.val shared decl = .ok d ∧ types = [d] := by
  cases hentity : schema.entity? entity.val with
  | none => simp [compile, single, hentity]
  | some e =>
    have hresult : (single entity shared decl).compile schema defaults =
        (inDeclaration decl (Dto.ofDeclaration schema defaults entity.val shared decl)) >>=
          fun d => pure [d] := by
      simp [compile, single, hentity, checkNames]
      rfl
    simp only [hresult, bind_eq_ok, pure_eq_ok]
    constructor
    · rintro ⟨d, hd, rfl⟩
      exact ⟨rfl, d, inDeclaration_eq_ok hd, rfl⟩
    · rintro ⟨_, d, hd, rfl⟩
      exact ⟨d, by rw [hd]; rfl, rfl⟩

/-- The same for a source with any positions. -/
theorem compile_eq_ok_of_bare {s : Source P} {entity : Name} {shared : List (Located Unit Modifier)}
    {decl : Declaration Unit} (hs : s.bare = single ⟨entity, ()⟩ shared decl)
    (hentity : (schema.entity? entity).isSome) (types : List Dto) :
    s.compile schema defaults = .ok types ↔
      ∃ d, Dto.ofDeclaration schema defaults entity shared decl = .ok d ∧ types = [d] := by
  rw [← compile_bare_eq_ok, hs, compile_single_eq_ok]
  exact and_iff_right hentity

/-- **Nested bodies are compositional.** Let the attribute `property` of an entity lead to the
entity `target`. A declaration with nothing but `property` and a body compiles exactly if the
declaration with that body compiles on `target`. Then the property is of a type of `target` with the
name `TargetOf_property`, the modifiers and the mutability of the declaration, and the properties
that the body gives on its own. -/
theorem compile_nested_body {r r' : Registry} (hr : r.finalize = (.ok (), r')) (defaults : Defaults)
    {entity property target : Name} {a : Attribute}
    (ha : (SchemaStore.schema r').attribute? entity property = some a)
    (htarget : a.kind.target? = some target) (shared : List (Located Unit Modifier))
    (decl : Declaration Unit) {items : List (Item Unit)}
    (hrec : Item.anyRecursion items = false) (huser : ∀ item ∈ items, item.user? = none)
    {outer : Source P} {inner : Source Q}
    (houter : outer.bare = single ⟨entity, ()⟩ shared
      { decl with body := ⟨[.nested ⟨⟨property, ()⟩, false, none, none⟩ items ()], ()⟩ })
    (hinner : inner.bare = single ⟨target, ()⟩ shared { decl with body := ⟨items, ()⟩ }) :
    ((∃ types, outer.compile (SchemaStore.schema r') defaults = .ok types) ↔
      ∃ types, inner.compile (SchemaStore.schema r') defaults = .ok types) ∧
    ∀ types, outer.compile (SchemaStore.schema r') defaults = .ok types →
      ∃ d alone info, types = [d] ∧
        inner.compile (SchemaStore.schema r') defaults = .ok [alone] ∧
        alone.outline = ⟨target, decl.name.val, d.outline.traits, d.outline.mutable⟩ ∧
        info.name = property ∧ info.source = property ∧
        d.properties = [.nested info
          ⟨target, "TargetOf_" ++ property, d.outline.traits, d.outline.mutable⟩
          alone.properties] := by
  obtain ⟨hdeclares, hname⟩ := Schema.attribute?_eq_some_iff.mp ha
  have hentity := hdeclares.isSome_entity?
  have hknown : ((SchemaStore.schema r').entity? target).isSome :=
    Registry.lookup_target hr hdeclares htarget
  have hnested (d : Dto) := Dto.ofDeclaration_nested defaults shared decl
    ⟨⟨property, ()⟩, false, none, none⟩ () d rfl rfl ha htarget hrec huser
  simp only [compile_eq_ok_of_bare houter hentity, compile_eq_ok_of_bare hinner hknown, hnested]
  constructor
  · constructor
    · rintro ⟨_, _, ⟨alone, halone, _⟩, _⟩
      exact ⟨_, alone, halone, rfl⟩
    · rintro ⟨_, alone, halone, _⟩
      exact ⟨_, _, ⟨alone, halone, rfl⟩, rfl⟩
  · rintro _ ⟨_, ⟨alone, halone, rfl⟩, rfl⟩
    obtain ⟨selections, harises⟩ := Dto.arises_of_ofDeclaration halone
    have houtline : alone.outline =
        ⟨target, decl.name.val, alone.outline.traits, alone.outline.mutable⟩ := by
      rw [← harises.entity_eq, ← harises.name_eq]
    refine ⟨_, alone, Property.infoOf alone.outline.traits
      (Selection.plainPick entity ⟨⟨property, ()⟩, false, none, none⟩) a
      (Selection.nestedTypeName property), rfl, ⟨alone, halone, rfl⟩, houtline, rfl, hname, ?_⟩
    rw [Dto.behind, houtline]
    rfl

end Source

/-! ### An example

The department of an employee, with all scalars of the department but its id. -/

namespace Company

def employee : Entity where
  name := "Employee"
  marker := .entity
  attributes := [.id "id" "Long", .association "department" "Department" false]
  distinct := by decide

def department : Entity where
  name := "Department"
  marker := .entity
  attributes := [.id "id" "Int", .scalar "name" "String"]
  distinct := by decide

def registry : Registry where
  entities := [employee, department]
  graph := some (.ofEntities [employee, department])

/-- The items `#allScalars -id`. -/
def withoutId : List (Item Unit) :=
  [.bundle ⟨"allScalars", ()⟩ none, .negative ⟨"id", ()⟩]

/-- The declaration `input Card ⟨⟩`. -/
def cardHeader : Declaration Unit where
  name := ⟨"Card", ()⟩
  tags := []
  modifiers := [⟨.input, ()⟩]
  body := ⟨[], ()⟩

/-- The sources `export Employee; input Card ⟨department ⟨#allScalars -id⟩⟩` and
`export Department; input Card ⟨#allScalars -id⟩`. -/
def employeeCard : Source Unit :=
  .single ⟨"Employee", ()⟩ [] { cardHeader with
    body := ⟨[.nested ⟨⟨"department", ()⟩, false, none, none⟩ withoutId ()], ()⟩ }

def departmentCard : Source Unit :=
  .single ⟨"Department", ()⟩ [] { cardHeader with body := ⟨withoutId, ()⟩ }

theorem employeeCard_composes :
    (∃ types, employeeCard.compile (SchemaStore.schema registry) {} = .ok types) ∧
      ∀ types, employeeCard.compile (SchemaStore.schema registry) {} = .ok types →
        ∃ d alone info, types = [d] ∧
          departmentCard.compile (SchemaStore.schema registry) {} = .ok [alone] ∧
          alone.outline = ⟨"Department", "Card", d.outline.traits, d.outline.mutable⟩ ∧
          info.name = "department" ∧ info.source = "department" ∧
          d.properties = [.nested info
            ⟨"Department", "TargetOf_department", d.outline.traits, d.outline.mutable⟩
            alone.properties] := by
  have hfinal : Registry.finalize ⟨[employee, department], {}, none⟩ = (.ok (), registry) := rfl
  have huser : ∀ item ∈ withoutId, item.user? = none := by simp [withoutId, Item.user?]
  have hrec : Item.anyRecursion withoutId = false := rfl
  have hattribute : (SchemaStore.schema registry).attribute? "Employee" "department" =
      some (.association "department" "Department" false) := rfl
  have houter : employeeCard.bare = employeeCard := rfl
  have hinner : departmentCard.bare = departmentCard := rfl
  obtain ⟨hiff, htypes⟩ := Source.compile_nested_body hfinal {} hattribute rfl [] cardHeader hrec
    huser houter hinner
  exact ⟨hiff.mpr ⟨_, rfl⟩, htypes⟩

end Company

end Projection
