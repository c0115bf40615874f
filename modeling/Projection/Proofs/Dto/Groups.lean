import Projection.Proofs.Dto.Shorthand

/-!
# Alias groups equal single aliases

An alias group renames what its items select, unless they have an alias of their own. Where each of
its items selects one property, `name` or `id(name)`, with a body or without one, the group says no
more than an alias on each of them would: the name that the pattern makes from the name which the
item has without an alias.

The two are expanded differently. A group is expanded at a place of its own, with no macro seen
before, and its selections are renamed once they are there (`Selection.renamed`); an alias is in the
selection from the start. `Selection.ofItem_withAlias` compares the two for one item. Groups may
stand in every body of a source, so the rest is about contexts (`Item.Flattened`, `Item.Nested`).
The body of a property that leads to no entity is never opened, and nothing in it matters at all.
-/

namespace Projection

variable {P Q : Type} {schema : Schema}

/-- The selection with an alias, which the pattern makes from its name. An alias that it has
stays. -/
def Selected.withAlias (pattern : AliasPattern) (head : Selected P) : Selected P :=
  { head with newName := some (head.newName.getD ⟨pattern.apply head.name.val, head.name.pos⟩) }

namespace Item

/-- The item selects one property: `name`, `name ⟨items⟩` or `id(name)`. -/
def isSingle : Item P → Bool
  | .plain _ | .nested .. | .idOnly .. => true
  | .bundle .. | .flatten .. | .negative _ | .user _ | .group .. => false

/-- The item with an alias, which the pattern makes from the name it has without one at the entity:
the name of the property, or that of the id behind it. An alias that it has stays. -/
def withAlias (schema : Schema) (entity : Name) (pattern : AliasPattern) : Item P → Item P
  | .plain head => .plain (head.withAlias pattern)
  | .nested head items extent => .nested (head.withAlias pattern) items extent
  | .idOnly property nullability newName =>
    .idOnly property nullability (some (newName.getD
      ⟨pattern.apply (idItemName schema entity property.val), property.pos⟩))
  | item => item

theorem isSingle_withAlias {item : Item P} (h : item.isSingle = true) (entity : Name)
    (pattern : AliasPattern) : (item.withAlias schema entity pattern).isSingle = true := by
  cases item with
  | plain | nested | idOnly => rfl
  | _ => exact h

/-- One alias group of single items, among items at the entity, gives way to its items with
aliases. -/
inductive Ungroups (schema : Schema) (entity : Name) : List (Item P) → List (Item P) → Prop
  | here {pattern items extent after} :
      (∀ item ∈ items, item.isSingle = true) →
      Ungroups schema entity (.group pattern items extent :: after)
        (items.map (withAlias schema entity pattern.val) ++ after)
  | tail {item items items'} :
      Ungroups schema entity items items' →
      Ungroups schema entity (item :: items) (item :: items')

/-- The body of one property that does not lead to an entity changes, among items at the entity or
in their alias groups. -/
inductive ChangesUnread (schema : Schema) (entity : Name) : List (Item P) → List (Item P) → Prop
  | nested {head body body' extent after} :
      (schema.attribute? entity head.name.val).bind (·.kind.target?) = none →
      ChangesUnread schema entity (.nested head body extent :: after)
        (.nested head body' extent :: after)
  | flatten {property lead body body' extent after} :
      (schema.attribute? entity property.val).bind (·.kind.single?) = none →
      ChangesUnread schema entity (.flatten property lead body extent :: after)
        (.flatten property lead body' extent :: after)
  | group {pattern items items' extent after} :
      ChangesUnread schema entity items items' →
      ChangesUnread schema entity (.group pattern items extent :: after)
        (.group pattern items' extent :: after)
  | tail {item items items'} :
      ChangesUnread schema entity items items' →
      ChangesUnread schema entity (item :: items) (item :: items')

/-- An alias group of a body is spelled out, or one in a body that is never opened. -/
inductive UngroupsBody (schema : Schema) (entity : Name) (items items' : List (Item P)) : Prop
  | group : Ungroups schema entity items items' → UngroupsBody schema entity items items'
  | unread : ChangesUnread schema entity items items' → UngroupsBody schema entity items items'

/-- The same in the body of a type, or in a body that is flattened into it. -/
inductive UngroupsType (schema : Schema) (entity : Name) (items items' : List (Item P)) : Prop
  | own : UngroupsBody schema entity items items' → UngroupsType schema entity items items'
  | flattened {path} :
      Flattened schema (UngroupsBody schema) entity path items items' →
      UngroupsType schema entity items items'

/-- The same in the body of a declaration, or in that of a type nested in it at any depth. -/
inductive UngroupsSomewhere (schema : Schema) (entity : Name) (items items' : List (Item P)) : Prop
  | type : UngroupsType schema entity items items' → UngroupsSomewhere schema entity items items'
  | nested :
      Nested schema (UngroupsType schema) entity items items' →
      UngroupsSomewhere schema entity items items'

end Item

/-! ### One item -/

namespace Selection

variable {site : Site} {pattern : AliasPattern}

/-- The alias makes the selection that the pattern around it would make. -/
theorem plainPick_withAlias (pattern : AliasPattern) (entity : Name) (head : Selected P)
    (item : Item P) (hitem : item.hasAlias = head.newName.isSome) :
    plainPick entity (head.withAlias pattern) =
      relabel (some pattern) item (plainPick entity head) := by
  obtain ⟨name, recursive, nullability, newName⟩ := head
  cases newName with
  | none =>
    have hnone : item.hasAlias = false := hitem
    simp [relabel, plainPick, Selected.withAlias, hnone]
  | some alias_ =>
    have hsome : item.hasAlias = true := hitem
    simp [relabel, plainPick, Selected.withAlias, hsome]

theorem idPick_withAlias (pattern : AliasPattern) (entity : Name) (property : Located P Name)
    (nullability : Option (Located P Nullability)) (newName : Option (Located P Name))
    (source output : Name) :
    idPick entity property nullability
        (some (newName.getD ⟨pattern.apply output, property.pos⟩)) source output =
      relabel (some pattern) (.idOnly property nullability newName)
        (idPick entity property nullability newName source output) := by
  cases newName <;> simp [relabel, idPick, Item.hasAlias]

theorem idOnly_withAlias (property : Located P Name) (nullability : Option (Located P Nullability))
    (newName : Option (Located P Name)) :
    idOnly schema site property nullability (some (newName.getD
        ⟨pattern.apply (Item.idItemName schema site.entity property.val), property.pos⟩)) =
      (idOnly schema site property nullability newName).map
        (List.map (mapPick (relabel (some pattern) (.idOnly property nullability newName)))) := by
  unfold idOnly
  cases ha : schema.attribute? site.entity property.val with
  | none => rfl
  | some a =>
    by_cases hassociation : a.kind.isAssociation = true
    · simp only [hassociation, if_true]
      cases hview : (schema.entity? site.entity).bind (·.idViewOf? property.val) with
      | none =>
        have hname : Item.idItemName schema site.entity property.val =
            idOnlyName property.val a.kind.isMany := by
          simp [Item.idItemName, hview, ha, idOnlyName_eq]
        have hpick := idPick_withAlias pattern site.entity property nullability newName
          property.val (idOnlyName property.val a.kind.isMany)
        rw [hname]
        exact congrArg (fun pick => Except.ok [leaf pick .idOnly]) hpick
      | some view =>
        have hname : Item.idItemName schema site.entity property.val = view.name := by
          simp [Item.idItemName, hview]
        have hpick := idPick_withAlias pattern site.entity property nullability newName
          view.name view.name
        rw [hname]
        exact congrArg (fun pick => Except.ok [leaf pick .value]) hpick
    · simp only [hassociation]
      rfl

/-- **An alias makes the same selection as the group around the item**, or the item is refused for
the same reason. -/
theorem ofItem_withAlias (site : Site) (pattern : AliasPattern) (seen seen' : List (Located P Name))
    {item : Item P} (hitem : item.isSingle = true) :
    ofItem schema site seen (item.withAlias schema site.entity pattern) =
      (ofItem schema (site.grouped pattern) seen' item).map
        (List.map (mapPick (relabel (some pattern) item))) := by
  cases item with
  | plain head =>
    have hpick := plainPick_withAlias pattern site.entity head (.plain head) rfl
    have hform : recursiveForm schema (site.grouped pattern) head.name =
        recursiveForm schema site head.name := rfl
    rw [Item.withAlias, ofItem, ofItem, plain, plain, hpick, hform]
    simp only [Selected.withAlias, Site.grouped]
    by_cases hrec : head.recursive = true
    · simp only [hrec, if_true]
      cases recursiveForm schema site head.name <;> rfl
    · simp only [hrec]
      rfl
  | nested head items extent =>
    have hpick := plainPick_withAlias pattern site.entity head
      (.nested head items extent) rfl
    rw [Item.withAlias, ofItem, ofItem, hpick]
    simp only [Selected.withAlias, Site.grouped]
    by_cases hrec : head.recursive = true
    · simp only [hrec, if_true]
      rfl
    · simp only [hrec]
      cases schema.attribute? site.entity head.name.val with
      | none => rfl
      | some a =>
        cases htarget : a.kind.target? with
        | none =>
          simp only [htarget]
          rfl
        | some target =>
          simp only [htarget]
          cases bodyOf items (ofItems schema
            { entity := target, scopes := ⟨target, nestedTypeName head.name.val⟩ :: site.scopes
              explicit := explicitNamesAll items, place := .nested } [] items) <;> rfl
  | idOnly property nullability newName =>
    rw [Item.withAlias, ofItem, ofItem]
    exact idOnly_withAlias property nullability newName
  | _ => cases hitem

theorem macroOf_of_isSingle {item : Item P} (h : item.isSingle = true) : macroOf item = [] := by
  cases item with
  | bundle => cases h
  | _ => rfl

/-- The items of a group with aliases in its place. -/
theorem ofItems_withAlias (site : Site) (hpattern : site.pattern = none) (pattern : AliasPattern)
    (seen : List (Located P Name)) {items : List (Item P)}
    (hitems : ∀ item ∈ items, item.isSingle = true) (after : List (Item P)) :
    ofItems schema site seen (items.map (.withAlias schema site.entity pattern) ++ after) = (do
      let first ← ofItems schema (site.grouped pattern) [] items
      let rest ← ofItems schema site seen after
      return first ++ rest) := by
  induction items with
  | nil =>
    rw [ofItems]
    change ofItems schema site seen after =
      ofItems schema site seen after >>= fun rest => pure ([] ++ rest)
    cases ofItems schema site seen after <;> rfl
  | cons item items ih =>
    obtain ⟨hitem, hrest⟩ := List.forall_mem_cons.mp hitems
    rw [List.map_cons, List.cons_append, ofItems, ofItems, macroOf_of_isSingle hitem,
      macroOf_of_isSingle (Item.isSingle_withAlias hitem _ _), hpattern,
      ofItem_withAlias site pattern seen [] hitem, List.append_nil, List.append_nil, ih hrest]
    cases ofItem schema (site.grouped pattern) [] item with
    | error fault => rfl
    | ok first =>
      cases ofItems schema (site.grouped pattern) [] items with
      | error fault => rfl
      | ok others =>
        cases ofItems schema site seen after with
        | error fault => rfl
        | ok rest =>
          have hall : first.map (mapPick (relabel (some pattern) item)) ++ (others ++ rest) =
              renamed (some pattern) item first ++ others ++ rest := by
            rw [renamed_eq_map, List.append_assoc]
          exact congrArg Except.ok hall

end Selection

/-! ### One body -/

theorem matches_eq_iff {ε α : Type} {x y : Except ε α} : Matches Eq x y ↔ x = y := by
  constructor
  · intro h
    cases h with
    | ok hab => rw [hab]
    | error e => rfl
  · rintro rfl
    exact .refl (fun _ => rfl) x

theorem Selection.congruent_eq : Congruent (P := P) Eq where
  append_left a h := congrArg (a ++ ·) h
  append_right a h := congrArg (· ++ a) h
  relabel _ _ h := congrArg (List.map _) h
  names h := congrArg (List.map _) h
  filter _ h := congrArg (List.filter _) h

namespace Item

open Selection

variable {entity : Name} {items items' : List (Item P)}

theorem aside_of_isSingle {item : Item P} (h : item.isSingle = true) : item.aside = none := by
  cases item with
  | negative | user => cases h
  | _ => rfl

theorem explicitNames_withAlias (entity : Name) (pattern : AliasPattern) (item : Item P) :
    explicitNames (item.withAlias schema entity pattern) = explicitNames item := by
  cases item <;> rfl

theorem explicitNamesAll_withAlias (entity : Name) (pattern : AliasPattern)
    (items : List (Item P)) :
    explicitNamesAll (items.map (withAlias schema entity pattern)) = explicitNamesAll items := by
  induction items with
  | nil => rfl
  | cons item items ih =>
    rw [List.map_cons, explicitNamesAll, explicitNamesAll, explicitNames_withAlias, ih]

namespace Ungroups

theorem aside (h : Ungroups schema entity items items') :
    items'.filterMap Item.aside = items.filterMap Item.aside := by
  induction h with
  | @here pattern items extent after hitems =>
    have hnone : (items.map (withAlias schema entity pattern.val)).filterMap Item.aside = [] := by
      rw [List.filterMap_map, List.filterMap_eq_nil_iff]
      intro item hitem
      exact aside_of_isSingle (isSingle_withAlias (hitems item hitem) entity pattern.val)
    rw [List.filterMap_append, hnone]
    rfl
  | tail _ ih => rw [List.filterMap_cons, List.filterMap_cons, ih]

theorem explicitNames (h : Ungroups schema entity items items') :
    explicitNamesAll items' = explicitNamesAll items := by
  induction h with
  | here =>
    rw [explicitNamesAll_append, explicitNamesAll_withAlias]
    rfl
  | tail _ ih => rw [explicitNamesAll, explicitNamesAll, ih]

theorem matches_ofItems (h : Ungroups schema entity items items') (site : Site)
    (seen : List (Located P Name)) (hentity : site.entity = entity)
    (hpattern : site.pattern = none) (hplace : site.place ≠ .group) :
    Matches Eq (ofItems schema site seen items) (ofItems schema site seen items') := by
  induction h generalizing seen with
  | @here pattern items extent after hitems =>
    subst hentity
    -- A group starts with no macro seen, but its items have none.
    have hseen : seen ++ macroOf (.group pattern items extent) = seen := List.append_nil seen
    rw [matches_eq_iff, ofItems_withAlias site hpattern pattern.val seen hitems, ofItems, ofItem,
      if_neg hplace, hpattern, hseen]
    rfl
  | tail _ ih => exact matches_ofItems_tail congruent_eq ih

end Ungroups

namespace ChangesUnread

theorem aside (h : ChangesUnread schema entity items items') :
    items'.filterMap Item.aside = items.filterMap Item.aside := by
  induction h with
  | tail _ ih => rw [List.filterMap_cons, List.filterMap_cons, ih]
  | _ => rfl

theorem explicitNames (h : ChangesUnread schema entity items items') :
    explicitNamesAll items' = explicitNamesAll items := by
  induction h with
  | group _ ih => simp only [explicitNamesAll, Selection.explicitNames, ih]
  | tail _ ih => rw [explicitNamesAll, explicitNamesAll, ih]
  | _ => rfl

/-- The body of a nested selection is opened only if the property leads to an entity. -/
theorem ofItem_nested {site : Site} {head : Selected P}
    (h : (schema.attribute? site.entity head.name.val).bind (·.kind.target?) = none)
    (body body' : List (Item P)) (extent : P) (seen : List (Located P Name)) :
    ofItem schema site seen (.nested head body extent) =
      ofItem schema site seen (.nested head body' extent) := by
  rw [ofItem, ofItem]
  cases ha : schema.attribute? site.entity head.name.val with
  | none => rfl
  | some a =>
    rw [ha] at h
    have htarget : a.kind.target? = none := h
    simp only [htarget]

/-- A flattened attribute without one entity behind it is refused before its body is opened. -/
theorem ofItem_flatten {site : Site} {property : Located P Name}
    (h : (schema.attribute? site.entity property.val).bind (·.kind.single?) = none)
    (lead : Option (Located P Name)) (body body' : List (Item P)) (extent : P)
    (seen : List (Located P Name)) :
    ofItem schema site seen (.flatten property lead body extent) =
      ofItem schema site seen (.flatten property lead body' extent) := by
  rw [ofItem, ofItem]
  cases hflat : flattened schema site property with
  | error fault => rfl
  | ok found =>
    obtain ⟨ha, htarget⟩ := flattened_eq_ok hflat
    rw [ha, Option.bind_some, htarget] at h
    cases h

theorem matches_ofItems (h : ChangesUnread schema entity items items') (site : Site)
    (seen : List (Located P Name)) (hentity : site.entity = entity) :
    Matches Eq (ofItems schema site seen items) (ofItems schema site seen items') := by
  induction h generalizing site seen with
  | nested hunread =>
    subst hentity
    exact matches_ofItems_head congruent_eq
      (matches_eq_iff.mpr (ofItem_nested hunread _ _ _ seen)) rfl rfl
  | flatten hunread =>
    subst hentity
    exact matches_ofItems_head congruent_eq
      (matches_eq_iff.mpr (ofItem_flatten hunread _ _ _ _ seen)) rfl rfl
  | group _ ih =>
    exact matches_ofItems_head congruent_eq (matches_ofItem_group (ih _ _ hentity)) rfl rfl
  | tail _ ih =>
    exact matches_ofItems_tail congruent_eq fun seen => ih site seen hentity

end ChangesUnread

/-- **A body selects the same** with its alias group spelled out. -/
theorem UngroupsBody.matches (site : Site) (hpattern : site.pattern = none)
    (hplace : site.place ≠ .group) (h : UngroupsBody schema site.entity items items') :
    Matches Eq (ofBodyAt schema site items) (ofBodyAt schema site items') := by
  cases h with
  | group hgroup =>
    exact matches_ofBodyAt schema site congruent_eq hgroup.aside hgroup.explicitNames
      fun seen => hgroup.matches_ofItems _ seen rfl hpattern hplace
  | unread hunread =>
    exact matches_ofBodyAt schema site congruent_eq hunread.aside hunread.explicitNames
      fun seen => hunread.matches_ofItems _ seen rfl

/-! ### All bodies -/

theorem UngroupsType.matches (site : Site) (hpattern : site.pattern = none)
    (hplace : site.place ≠ .group) (h : UngroupsType schema site.entity items items') :
    Matches Eq (ofBodyAt schema site items) (ofBodyAt schema site items') := by
  cases h with
  | own hbody => exact hbody.matches site hpattern hplace
  | flattened hflat =>
    have hmatches := hflat.matches (S := fun _ => Eq) (fun _ => congruent_eq)
      (fun _ _ _ _ _ h => congrArg (List.map _) h)
      fun site _ _ hpattern hplace hbody => hbody.matches site hpattern hplace
    exact matches_ofBodyAt schema site congruent_eq hflat.aside hflat.explicitNames
      fun seen => hmatches _ seen rfl

namespace UngroupsSomewhere

theorem ofBodyAt_eq (site : Site) (hpattern : site.pattern = none) (hplace : site.place ≠ .group)
    (h : UngroupsSomewhere schema site.entity items items') :
    ofBodyAt schema site items = ofBodyAt schema site items' := by
  rw [← matches_eq_iff]
  cases h with
  | type htype => exact htype.matches site hpattern hplace
  | nested hnested =>
    have hmatches := hnested.matches (S := Eq) (B := Eq) congruent_eq
      (fun _ _ _ _ h => congrArg (List.map _) h)
      (fun _ _ pick target type h =>
        congrArg (fun inner => [Selection.nested pick target type inner]) h)
      (fun _ _ h => h)
      fun site _ _ hpattern hplace htype => htype.matches site hpattern hplace
    exact matches_ofBodyAt schema site congruent_eq hnested.aside hnested.explicitNames
      fun seen => hmatches _ seen rfl

theorem aside {entity : Name} (h : UngroupsSomewhere schema entity items items') :
    items'.filterMap Item.aside = items.filterMap Item.aside := by
  cases h with
  | type htype =>
    cases htype with
    | own hbody =>
      cases hbody with
      | group hgroup => exact hgroup.aside
      | unread hunread => exact hunread.aside
    | flattened hflat => exact hflat.aside
  | nested hnested => exact hnested.aside

end UngroupsSomewhere

end Item

/-! ### Sources -/

/-- The source has one alias group of single items spelled out, in one body of one declaration. -/
def Source.Ungroups (schema : Schema) (s s' : Source P) : Prop :=
  ∃ before decl after items', s.declarations = before ++ decl :: after ∧
    s' = { s with declarations :=
      before ++ { decl with body := ⟨items', decl.body.extent⟩ } :: after } ∧
    Item.UngroupsSomewhere schema s.entity.val decl.body.items items'

variable {defaults : Defaults}

theorem Dto.ofDeclaration_ungrouped {entity : Name} {shared : List (Located P Modifier)}
    {decl : Declaration P} {items' : List (Item P)}
    (h : Item.UngroupsSomewhere schema entity decl.body.items items') :
    Dto.ofDeclaration schema defaults entity shared
        { decl with body := ⟨items', decl.body.extent⟩ } =
      Dto.ofDeclaration schema defaults entity shared decl := by
  have husers : (⟨items', decl.body.extent⟩ : Body P).users = decl.body.users :=
    Body.users_eq_of_aside h.aside decl.body.extent
  let site : Site :=
    { entity, scopes := [⟨entity, decl.name.val⟩], explicit := [], place := .declaration }
  have hbody : Selection.ofBody schema entity decl.name.val decl.body =
      Selection.ofBody schema entity decl.name.val ⟨items', decl.body.extent⟩ :=
    h.ofBodyAt_eq site rfl Place.noConfusion
  simp only [Dto.ofDeclaration, husers, hbody]

theorem Source.compile_eq_of_ungroups {s s' : Source P} (h : s.Ungroups schema s') :
    s'.compile schema defaults = s.compile schema defaults := by
  obtain ⟨before, decl, after, items', hdeclarations, rfl, hungroups⟩ := h
  exact compile_of_body hdeclarations (Dto.ofDeclaration_ungrouped hungroups)

/-- **An alias group is only shorthand for aliases.** Take an alias group out of any body of a
source, if each of its items selects one property by name or by `id(..)`, and put its items in its
place. Each without an alias gets the one that the pattern makes from the name it would have: the
name of the property, and for `id(..)` that of the id view, or else the name of the ids. The source
then compiles to the same types, or is refused with the same code and the same message, wherever the
new parts stand. -/
theorem Source.compile_ungrouped (schema : Schema) (defaults : Defaults) {s s' : Source P}
    (h : s.Ungroups schema s') {t : Source Q} (ht : t.bare = s'.bare) :
    (∃ types, s.compile schema defaults = .ok types ∧ t.compile schema defaults = .ok types) ∨
      ∃ fault fault', s.compile schema defaults = .error fault ∧
        t.compile schema defaults = .error fault' ∧
        fault.code = fault'.code ∧ fault.message = fault'.message := by
  rw [← compile_eq_of_ungroups h]
  exact compile_of_bare_eq ht schema defaults

/-! ### An example

The manager of an employee, in a nested type with old names. -/

namespace Staff

/-- The source `export Employee; Past ⟨manager ⟨items⟩⟩`. -/
def pastSource (items : List (Item Unit)) : Source Unit :=
  .single (at_ "Employee") [] ⟨at_ "Past", [], [],
    ⟨[.nested ⟨at_ "manager", false, none, none⟩ items ()], ()⟩⟩

/-- The items `as(^ -> old) ⟨id, name as label, id(manager)⟩`. -/
def oldGroup : List (Item Unit) :=
  [.group (at_ ⟨true, false, "", "old"⟩)
    [.plain ⟨at_ "id", false, none, none⟩, .plain ⟨at_ "name", false, none, some (at_ "label")⟩,
      .idOnly (at_ "manager") none none] ()]

/-- The items `id as oldId, name as label, id(manager) as oldManagerId`. -/
def oldItems : List (Item Unit) :=
  [.plain ⟨at_ "id", false, none, some (at_ "oldId")⟩,
    .plain ⟨at_ "name", false, none, some (at_ "label")⟩,
    .idOnly (at_ "manager") none (some (at_ "oldManagerId"))]

theorem past_is_ungrouped :
    (pastSource oldGroup).Ungroups (SchemaStore.schema registry) (pastSource oldItems) ∧
      ∃ types, (pastSource oldGroup).compile (SchemaStore.schema registry) {} = .ok types ∧
        (pastSource oldItems).compile (SchemaStore.schema registry) {} = .ok types := by
  have hgroup : Item.Ungroups (SchemaStore.schema registry) "Employee" oldGroup oldItems :=
    .here (by decide)
  have hattribute : (SchemaStore.schema registry).attribute? "Employee"
      (⟨at_ "manager", false, none, none⟩ : Selected Unit).name.val =
        some { Attribute.association "manager" "Employee" false with nullable := true } := rfl
  have hungroups : (pastSource oldGroup).Ungroups (SchemaStore.schema registry)
      (pastSource oldItems) :=
    ⟨[], _, [], _, rfl, rfl, .nested (.body hattribute rfl (.own (.group hgroup)))⟩
  refine ⟨hungroups, ?_⟩
  rcases Source.compile_ungrouped (SchemaStore.schema registry) {} hungroups
      (t := pastSource oldItems) rfl with htypes | ⟨fault, _, hfault, _⟩
  · exact htypes
  · cases hfault

end Staff

end Projection
