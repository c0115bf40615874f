import Projection.Proofs.Dto.Nullability
import Projection.Proofs.Selection.Names

/-!
# The names in the output of a declaration

The properties of a compiled type have the names of its body, in their order, and the user-defined
properties that stand directly in the body follow. Further in, a user-defined property is refused,
with one exception: the body of an unknown property is never opened. The unknown property is a fault
when it is bound, unless a negative took it away before. Then the declaration compiles, and what the
body of the unknown property defines is lost.

`Source.compile_property_names` says what the output is, and that it has all user-defined properties
of the source exactly if no such body has one. `Staff.caption_is_lost` is a source where one is
lost.
-/

namespace Projection

variable {P : Type} {schema : Schema}

namespace Item

/-- The item as a user-defined property. -/
def user? : Item P → Option (UserItem P)
  | .user item => some item
  | _ => none

mutual

/-- The user-defined properties in an item, at every depth. -/
def users : Item P → List (UserItem P)
  | .user item => [item]
  | .nested _ items _ => usersAll items
  | .flatten _ _ items _ => usersAll items
  | .group _ items _ => usersAll items
  | .plain _ | .bundle .. | .idOnly .. | .negative _ => []

/-- The user-defined properties in items, at every depth and in their order. -/
def usersAll : List (Item P) → List (UserItem P)
  | [] => []
  | item :: items => users item ++ usersAll items

end

mutual

/-- The user-defined properties in bodies of properties that their entity does not have. -/
def unread (schema : Schema) (entity : Name) : Item P → List (UserItem P)
  | .nested head items _ =>
    match schema.attribute? entity head.name.val with
    | none => usersAll items
    | some a =>
      match a.kind.target? with
      | some target => unreadAll schema target items
      | none => []
  | .flatten property _ items _ =>
    match (schema.attribute? entity property.val).bind (·.kind.single?) with
    | some target => unreadAll schema target items
    | none => []
  | .group _ items _ => unreadAll schema entity items
  | .user _ | .plain _ | .bundle .. | .idOnly .. | .negative _ => []

/-- The same for items in their order. -/
def unreadAll (schema : Schema) (entity : Name) : List (Item P) → List (UserItem P)
  | [] => []
  | item :: items => unread schema entity item ++ unreadAll schema entity items

end

theorem filterMap_user?_sublist (items : List (Item P)) :
    (items.filterMap user?).Sublist (usersAll items) := by
  induction items with
  | nil => exact .slnil
  | cons item items ih =>
    rw [usersAll]
    cases item with
    | user item => exact ih.cons_cons item
    | _ => exact ih.trans (List.sublist_append_right _ _)

end Item

theorem Body.users_eq (body : Body P) : body.users = body.items.filterMap Item.user? :=
  rfl

/-! ### User-defined properties of an expansion -/

namespace Selection

theorem Yields.user? {site : Site} {item : Item P} {selected : List (Selection P)}
    (h : Yields schema site item selected) (hplace : site.place ≠ .declaration) :
    item.user? = none := by
  cases h with
  | user hdeclaration => exact absurd hdeclaration hplace
  | _ => rfl

/-- Below the body of a declaration no user-defined property stands directly. -/
theorem Expands.filterMap_user? {site : Site} {items : List (Item P)}
    {selections : List (Selection P)} (h : Expands schema site items selections)
    (hplace : site.place ≠ .declaration) : items.filterMap Item.user? = [] := by
  induction h with
  | nil => rfl
  | single hyields _ ih =>
    rw [List.filterMap_cons, hyields.user? hplace]
    exact ih hplace
  | nested _ _ _ _ _ _ ih => exact ih hplace
  | flatten _ _ _ _ _ ih => exact ih hplace
  | group _ _ _ _ ih => exact ih hplace

/-- What stands in the item and not directly in its body is in a body that is not opened. -/
def Accounted (schema : Schema) (entity : Name) (item : Item P) : Prop :=
  item.users.length = item.user?.toList.length + (item.unread schema entity).length

theorem Yields.accounted {site : Site} {item : Item P} {selected : List (Selection P)}
    (h : Yields schema site item selected) : Accounted schema site.entity item := by
  cases h with
  | unknown _ hnone => simp [Accounted, Item.users, Item.user?, Item.unread, hnone]
  | _ => simp [Accounted, Item.users, Item.user?, Item.unread]

theorem length_usersAll_cons {entity : Name} {item : Item P} {items : List (Item P)}
    (hitem : Accounted schema entity item)
    (hitems : (Item.usersAll items).length =
      (items.filterMap Item.user?).length + (Item.unreadAll schema entity items).length) :
    (Item.usersAll (item :: items)).length =
      ((item :: items).filterMap Item.user?).length +
        (Item.unreadAll schema entity (item :: items)).length := by
  have hdirect : ((item :: items).filterMap Item.user?).length =
      item.user?.toList.length + (items.filterMap Item.user?).length := by
    rw [List.filterMap_cons]
    cases item.user? with
    | none => simp
    | some user => simp [Nat.add_comm]
  unfold Accounted at hitem
  rw [hdirect, Item.usersAll, Item.unreadAll, List.length_append, List.length_append]
  omega

/-- A user-defined property stands directly in the body, or in a body that is not opened. -/
theorem Expands.length_usersAll {site : Site} {items : List (Item P)}
    {selections : List (Selection P)} (h : Expands schema site items selections) :
    (Item.usersAll items).length =
      (items.filterMap Item.user?).length + (Item.unreadAll schema site.entity items).length := by
  induction h with
  | nil => rfl
  | single hyields _ ih => exact length_usersAll_cons hyields.accounted ih
  | nested _ ha htarget hbody _ ihbody ih =>
    -- Nothing stands directly in an inner body, so all that stands in it is unread.
    rw [hbody.filterMap_user? (by simp [Site.nested])] at ihbody
    refine length_usersAll_cons ?_ ih
    simpa [Accounted, Item.users, Item.user?, Item.unread, ha, htarget, Site.nested] using ihbody
  | flatten ha htarget hbody _ ihbody ih =>
    rw [hbody.filterMap_user? (by simp [Site.flattened])] at ihbody
    refine length_usersAll_cons ?_ ih
    simpa [Accounted, Item.users, Item.user?, Item.unread, ha, htarget, Site.flattened] using ihbody
  | group _ hbody _ ihbody ih =>
    rw [hbody.filterMap_user? (by simp [Site.grouped])] at ihbody
    refine length_usersAll_cons ?_ ih
    simpa [Accounted, Item.users, Item.user?, Item.unread, Site.grouped] using ihbody

end Selection

/-! ### Declarations -/

/-- All user-defined properties in a body, at every depth and in their order. -/
def Body.allUsers (body : Body P) : List (UserItem P) :=
  Item.usersAll body.items

/-- Those of them in bodies of properties that their entity does not have. -/
def Body.unreadUsers (schema : Schema) (entity : Name) (body : Body P) : List (UserItem P) :=
  Item.unreadAll schema entity body.items

section Declarations

variable {defaults : Defaults} {entity : Name} {shared : List (Located P Modifier)}
  {decl : Declaration P} {selections : List (Selection P)} {d : Dto}

theorem Property.name_ofSelection {traits : Traits} {mutable : Bool} {s : Selection P}
    {p : Property} (h : Property.ofSelection schema traits mutable s = .ok p) :
    p.info.name = s.name := by
  cases s with
  | leaf =>
    obtain ⟨_, _, _, _, _, rfl⟩ := Property.ofSelection_leaf_eq_ok h
    rfl
  | nested =>
    obtain ⟨_, _, _, _, rfl⟩ := Property.ofSelection_nested_eq_ok h
    rfl

theorem Dto.Arises.map_name
    (hd : Dto.Arises schema defaults entity shared decl selections d) :
    selections.map Selection.name = d.properties.map (·.info.name) :=
  map_eq_map_of_forall₂ (Property.forall₂_of_ofSelections hd.properties)
    fun _ _ h => (Property.name_ofSelection h).symm

theorem Dto.Arises.propertyNames
    (hd : Dto.Arises schema defaults entity shared decl selections d) :
    d.propertyNames = decl.body.names schema entity ++ decl.body.users.map (·.name.val) := by
  have husers : decl.body.users.map (·.name.val) = d.users.map (·.name) :=
    map_eq_map_of_forall₂ (UserProperty.forall₂_of_ofItems hd.users)
      fun _ _ h => (UserProperty.ofItem_eq_ok h).1.symm
  rw [Dto.propertyNames, ← hd.map_name, Selection.map_name_ofBody hd.selected, husers]

/-- All user-defined properties stand directly in the body exactly if none is in a body that is not
opened. -/
theorem Dto.Arises.users_eq_allUsers_iff
    (hd : Dto.Arises schema defaults entity shared decl selections d) :
    decl.body.users.map (·.name.val) = decl.body.allUsers.map (·.name.val) ↔
      decl.body.unreadUsers schema entity = [] := by
  obtain ⟨all, hall, _⟩ := Selection.expands_of_ofBody hd.selected
  have hlength : decl.body.allUsers.length =
      decl.body.users.length + (decl.body.unreadUsers schema entity).length := by
    rw [Body.users_eq]
    exact hall.length_usersAll
  have hsub : decl.body.users.Sublist decl.body.allUsers := by
    rw [Body.users_eq]
    exact Item.filterMap_user?_sublist decl.body.items
  rw [← List.length_eq_zero_iff]
  constructor
  · intro heq
    have hsame := congrArg List.length heq
    rw [List.length_map, List.length_map] at hsame
    omega
  · intro hnone
    rw [hsub.eq_of_length (by omega)]

end Declarations

/-- **The names in the output.** Each declaration of a source that compiles puts out the names that
its body selects, and then those of the user-defined properties directly in the body, all in the
order of the source. These are the user-defined properties at every depth if and only if there is
none in the body of a property that its entity does not have. -/
theorem Source.compile_property_names {s : Source P} {defaults : Defaults} {types : List Dto}
    (hs : s.compile schema defaults = .ok types) :
    List.Forall₂ (fun decl d =>
      d.propertyNames =
          decl.body.names schema s.entity.val ++ decl.body.users.map (·.name.val) ∧
        (d.propertyNames =
            decl.body.names schema s.entity.val ++ decl.body.allUsers.map (·.name.val) ↔
          decl.body.unreadUsers schema s.entity.val = []))
      s.declarations types := by
  refine (Source.arises_of_compile hs).2.imp ?_
  rintro decl d ⟨selections, hd⟩
  refine ⟨hd.propertyNames, ?_⟩
  rw [hd.propertyNames, List.append_cancel_left_eq]
  exact hd.users_eq_allUsers_iff

/-! ### An example

Employees have no photo, but the view `Badge` selects one, with a caption of its own, and takes it
away again. -/

namespace Staff

/-- The source `export Employee; Badge ⟨id, photo ⟨caption: String⟩ -photo⟩`. -/
def badgeSource : Source Unit where
  entity := at_ "Employee"
  modifiers := []
  declarations := [{
    name := at_ "Badge"
    tags := []
    modifiers := []
    body := ⟨[.plain ⟨at_ "id", false, none, none⟩,
      .nested ⟨at_ "photo", false, none, none⟩
        [.user ⟨[], at_ "caption", at_ ⟨"String", [], false⟩, none⟩] (),
      .negative (at_ "photo")], ()⟩ }]

/-- The view. -/
def badge : Dto where
  outline := ⟨"Employee", "Badge", {}, false⟩
  tags := []
  mutability := .unspecified
  properties := [.leaf {
    name := "id"
    source := "id"
    newName := none
    path := []
    kind := .id
    type := "Long"
    nullable := false
    nullability := none
    many := false } .value]
  users := []

theorem caption_is_lost :
    Registry.finalize ⟨[employee], {}, none⟩ = (.ok (), registry) ∧
      badgeSource.compile (SchemaStore.schema registry) {} = .ok [badge] ∧
      badge.propertyNames = ["id"] ∧
      ∃ decl ∈ badgeSource.declarations,
        decl.body.names (SchemaStore.schema registry) "Employee" = ["id"] ∧
        decl.body.allUsers.map (·.name.val) = ["caption"] ∧
        badge.propertyNames ≠ decl.body.names (SchemaStore.schema registry) "Employee" ++
          decl.body.allUsers.map (·.name.val) := by
  have hcompiles : badgeSource.compile (SchemaStore.schema registry) {} = .ok [badge] := rfl
  refine ⟨rfl, hcompiles, rfl, _, List.mem_singleton.mpr rfl, rfl, rfl, ?_⟩
  have hnames := (List.forall₂_cons.mp (Source.compile_property_names hcompiles)).1
  intro hall
  have hnone := hnames.2.mp hall
  exact absurd hnone (by decide)

end Staff

end Projection
