import Projection.Proofs.Selection.Context

/-!
# Macros spelled out

A macro stands for items that name attributes one by one. Spelling it out changes three things that
expansion looks at: the body now selects the attributes itself, one macro fewer has been used before
the items behind, and the attributes count as written out. The first two matter to macros only, and
not to the other one: no attribute is of both, and the macro is used once. So what the items select
is the same but for the last thing, which `Selection.Marks` describes: some selections have become
explicit.
-/

namespace Projection

variable {P : Type} {schema : Schema}

/-- The macros. -/
inductive Shorthand where
  | allScalars
  | allReferences
  deriving DecidableEq, Repr

namespace Shorthand

/-- The macro as it is written. -/
def text : Shorthand → Name
  | allScalars => "allScalars"
  | allReferences => "allReferences"

/-- The macro stands for attributes of this kind. -/
def covers : Shorthand → Kind → Bool
  | allScalars, .scalar _ => true
  | allScalars, .id => true
  | allReferences, .association _ many => !many
  | _, _ => false

/-- The attributes that the macro stands for in a body that selects the names `explicit` itself. -/
def attributes (m : Shorthand) (schema : Schema) (entity : Name) (explicit : List Name) :
    List Attribute :=
  (schema.attributesOf entity).filter fun a => m.covers a.kind && !explicit.contains a.name

/-- The item that selects one attribute: `name` or `id(name)`, with the mark of the macro. -/
def item (m : Shorthand) (pos : P) (nullability : Option (Located P Nullability)) (name : Name) :
    Item P :=
  match m with
  | allScalars => .plain ⟨⟨name, pos⟩, false, nullability, none⟩
  | allReferences => .idOnly ⟨name, pos⟩ nullability none

theorem macroAttributes_eq (m : Shorthand) (schema : Schema) (entity : Name) {name : Located P Name}
    (h : name.val = m.text) : Selection.macroAttributes schema entity name =
      .ok ((schema.attributesOf entity).filter fun a => m.covers a.kind) := by
  unfold Selection.macroAttributes
  rw [h]
  cases m with
  | allScalars =>
    rw [if_pos (by decide)]
    congr 2
    funext a
    cases a.kind <;> rfl
  | allReferences =>
    rw [if_neg (by decide), if_pos (by decide)]
    congr 2
    funext a
    cases a.kind <;> simp [covers, Kind.isAssociation, Kind.isMany]

/-- No attribute is of both macros. -/
theorem not_covers_of_macroAttributes {m : Shorthand} {entity : Name} {name : Located P Name}
    {attributes : List Attribute}
    (h : Selection.macroAttributes schema entity name = .ok attributes)
    (hname : name.val ≠ m.text) {a : Attribute} (ha : a ∈ attributes) :
    m.covers a.kind = false := by
  unfold Selection.macroAttributes at h
  split at h <;> rename_i hscalars
  · cases h
    cases m with
    | allScalars => exact absurd (beq_iff_eq.mp hscalars) hname
    | allReferences =>
      have hkind := (List.mem_filter.mp ha).2
      cases hk : a.kind <;> simp_all [covers, Kind.isScalar]
  · split at h <;> rename_i hreferences
    · cases h
      cases m with
      | allReferences => exact absurd (beq_iff_eq.mp hreferences) hname
      | allScalars =>
        have hkind := (List.mem_filter.mp ha).2
        cases hk : a.kind <;> simp_all [covers, Kind.isAssociation]
    · cases h

end Shorthand

namespace Item

mutual

/-- The macros among an item and the items of an alias group. -/
def shorthands : Item P → List Name
  | .bundle name _ => [name.val]
  | .group _ items _ => shorthandsAll items
  | _ => []

/-- The macros among the items of a body and of its alias groups. -/
def shorthandsAll : List (Item P) → List Name
  | [] => []
  | item :: items => shorthands item ++ shorthandsAll items

end

/-- One use of the macro, among the items or in an alias group, gives way to items for these names,
with the mark of the macro. -/
inductive SpellsOut (m : Shorthand) (names : List Name) : List (Item P) → List (Item P) → Prop
  | here {name nullability after} :
      name.val = m.text →
      SpellsOut m names (.bundle name nullability :: after)
        (names.map (m.item name.pos nullability) ++ after)
  | group {pattern items items' extent after} :
      SpellsOut m names items items' →
      SpellsOut m names (.group pattern items extent :: after)
        (.group pattern items' extent :: after)
  | tail {item items items'} :
      SpellsOut m names items items' → SpellsOut m names (item :: items) (item :: items')

/-- The only use of the macro in a body at an entity is spelled out. An association has no id view
where `id(..)` is written for it. -/
structure SpellsOutBody (schema : Schema) (m : Shorthand) (names : List Name) (entity : Name)
    (items items' : List (Item P)) : Prop where
  once : (shorthandsAll items).count m.text = 1
  names_eq : names =
    (m.attributes schema entity (Selection.explicitNamesAll items)).map (·.name)
  noView : m = .allReferences → ∀ a ∈ schema.attributesOf entity, m.covers a.kind = true →
    (schema.entity? entity).bind (·.idViewOf? a.name) = none
  spellsOut : SpellsOut m names items items'

variable {m : Shorthand} {names : List Name} {items items' : List (Item P)}

theorem aside_item (m : Shorthand) (pos : P) (nullability : Option (Located P Nullability))
    (name : Name) : (m.item pos nullability name).aside = none := by
  cases m <;> rfl

theorem SpellsOut.aside (h : SpellsOut m names items items') :
    items'.filterMap aside = items.filterMap aside := by
  induction h with
  | @here name nullability after _ =>
    have hnone : (names.map (m.item name.pos nullability)).filterMap Item.aside = [] := by
      rw [List.filterMap_map, List.filterMap_eq_nil_iff]
      intro other _
      exact aside_item m name.pos nullability other
    rw [List.filterMap_append, hnone]
    rfl
  | group => rfl
  | tail _ ih => rw [List.filterMap_cons, List.filterMap_cons, ih]

theorem SpellsOut.mem_shorthandsAll (h : SpellsOut m names items items') :
    m.text ∈ shorthandsAll items := by
  induction h with
  | here hname => simp [shorthandsAll, shorthands, hname]
  | group _ ih => exact List.mem_append_left _ ih
  | tail _ ih => exact List.mem_append_right _ ih

theorem explicitNamesAll_append (items after : List (Item P)) :
    Selection.explicitNamesAll (items ++ after) =
      Selection.explicitNamesAll items ++ Selection.explicitNamesAll after := by
  induction items with
  | nil => rfl
  | cons item items ih =>
    rw [List.cons_append, Selection.explicitNamesAll, Selection.explicitNamesAll, ih,
      List.append_assoc]

theorem explicitNamesAll_items (m : Shorthand) (pos : P)
    (nullability : Option (Located P Nullability)) (names : List Name) :
    Selection.explicitNamesAll (names.map (m.item pos nullability)) = names := by
  induction names with
  | nil => rfl
  | cons name names ih =>
    rw [List.map_cons, Selection.explicitNamesAll, ih]
    cases m <;> rfl

/-- The body selects the names itself. -/
theorem SpellsOut.mem_explicitNamesAll (h : SpellsOut m names items items') {name : Name} :
    name ∈ Selection.explicitNamesAll items' ↔
      name ∈ names ∨ name ∈ Selection.explicitNamesAll items := by
  induction h with
  | here =>
    rw [explicitNamesAll_append, explicitNamesAll_items, List.mem_append]
    rfl
  | group _ ih =>
    simp only [Selection.explicitNamesAll, Selection.explicitNames, List.mem_append, ih]
    exact or_assoc
  | tail _ ih =>
    simp only [Selection.explicitNamesAll, List.mem_append, ih]
    exact or_left_comm

end Item

/-! ### What macros have to do with each other -/

namespace Selection

/-- Macros other than `x` leave out the same attributes of an entity. -/
def LeavesOutAlike (schema : Schema) (entity x : Name) (explicit explicit' : List Name) : Prop :=
  ∀ (name : Located P Name) (attributes : List Attribute), name.val ≠ x →
    macroAttributes schema entity name = .ok attributes →
    (attributes.filter fun a => !explicit'.contains a.name) =
      attributes.filter fun a => !explicit.contains a.name

/-- Macros other than `x` were used alike before. -/
def SeenAlike (x : Name) (seen seen' : List (Located P Name)) : Prop :=
  ∀ name, name ≠ x → seen'.find? (·.val == name) = seen.find? (·.val == name)

variable {x entity : Name} {explicit explicit' : List Name} {seen seen' : List (Located P Name)}

theorem SeenAlike.refl (x : Name) (seen : List (Located P Name)) : SeenAlike x seen seen :=
  fun _ _ => rfl

theorem SeenAlike.append (h : SeenAlike x seen seen') (more : List (Located P Name)) :
    SeenAlike x (seen ++ more) (seen' ++ more) := by
  intro name hname
  rw [List.find?_append, List.find?_append, h name hname]

/-- The macro `x` itself makes no difference. -/
theorem SeenAlike.drop (h : SeenAlike x seen seen') {name : Located P Name} (hname : name.val = x) :
    SeenAlike x (seen ++ [name]) seen' := by
  intro other hother
  have hne : (name.val == other) = false := by
    rw [hname]
    exact beq_false_of_ne (Ne.symm hother)
  rw [h other hother, List.find?_append, List.find?_cons_of_neg (by simp [hne])]
  simp

theorem checkMacro_of_seenAlike (h : SeenAlike x seen seen') {name : Located P Name}
    (hname : name.val ≠ x) : checkMacro seen' name = checkMacro seen name := by
  rw [checkMacro, checkMacro, h _ hname]

theorem bundle_of_leavesOutAlike {site : Site}
    (h : LeavesOutAlike (P := P) schema site.entity x site.explicit explicit')
    {name : Located P Name} (hname : name.val ≠ x) (nullability : Option (Located P Nullability)) :
    bundle schema { site with explicit := explicit' } name nullability =
      bundle schema site name nullability := by
  unfold bundle
  cases hattributes : macroAttributes schema site.entity name with
  | error fault => rfl
  | ok attributes =>
    have hleft := h name attributes hname hattributes
    exact congrArg (fun l => Except.ok (List.map (ofMacro site.entity name nullability) l)) hleft

-- By recursion on the syntax, as `ofItem` and `ofItems` are. Bodies of other attributes are told
-- anew what they select themselves, so only alias groups are opened.
mutual

/-- Items without the macro `x` do not see whether it was spelled out. -/
theorem ofItem_of_leavesOutAlike (site : Site)
    (h : LeavesOutAlike (P := P) schema site.entity x site.explicit explicit')
    {seen seen' : List (Located P Name)} (hseen : SeenAlike x seen seen') :
    ∀ item : Item P, x ∉ item.shorthands →
      ofItem schema { site with explicit := explicit' } seen' item = ofItem schema site seen item
  | .bundle name nullability, hx => by
    have hname : name.val ≠ x := by
      simpa [Item.shorthands, eq_comm] using hx
    rw [ofItem, ofItem, checkMacro_of_seenAlike hseen hname, bundle_of_leavesOutAlike h hname]
  | .group pattern items extent, hx => by
    rw [ofItem, ofItem]
    have hitems := ofItems_of_leavesOutAlike (site.grouped pattern.val) h (.refl x []) items hx
    split
    · rfl
    · exact hitems
  | .negative name, _ | .user item, _ => by
    rw [ofItem, ofItem]
  | .nested head items extent, _ => by
    rw [ofItem, ofItem]
  | .plain head, _ => by
    rw [ofItem, ofItem]
    rfl
  | .idOnly property nullability newName, _ => by
    rw [ofItem, ofItem]
    rfl
  | .flatten property lead items extent, _ => by
    rw [ofItem, ofItem]
    rfl

theorem ofItems_of_leavesOutAlike (site : Site)
    (h : LeavesOutAlike (P := P) schema site.entity x site.explicit explicit')
    {seen seen' : List (Located P Name)} (hseen : SeenAlike x seen seen') :
    ∀ items : List (Item P), x ∉ Item.shorthandsAll items →
      ofItems schema { site with explicit := explicit' } seen' items =
        ofItems schema site seen items
  | [], _ => by
    rw [ofItems, ofItems]
  | item :: items, hx => by
    rw [Item.shorthandsAll, List.mem_append, not_or] at hx
    rw [ofItems, ofItems, ofItem_of_leavesOutAlike site h hseen item hx.1,
      ofItems_of_leavesOutAlike site h (hseen.append (macroOf item)) items hx.2]

end

/-! ### Selections that become explicit -/

/-- The selections are the same, but some have become explicit. These read the attributes of the
first list, each at most once and in this order. -/
inductive Marks : List (List Name × Name) → List (Selection P) → List (Selection P) → Prop
  | nil : Marks [] [] []
  | skip {origin origins s t} : Marks origins s t → Marks (origin :: origins) s t
  | same {origins s t} (x : Selection P) : Marks origins s t → Marks origins (x :: s) (x :: t)
  | mark {origins s t pick form} : pick.explicit = false → Marks origins s t →
      Marks ((pick.path, pick.source.val) :: origins) (.leaf pick form :: s)
        (.leaf { pick with explicit := true } form :: t)

namespace Marks

variable {origins : List (List Name × Name)} {s t : List (Selection P)}

theorem refl (s : List (Selection P)) : Marks [] s s := by
  induction s with
  | nil => exact .nil
  | cons x s ih => exact .same x ih

theorem append {origins' : List (List Name × Name)} {s' t' : List (Selection P)}
    (h : Marks origins s t) (h' : Marks origins' s' t') :
    Marks (origins ++ origins') (s ++ s') (t ++ t') := by
  induction h with
  | nil => exact h'
  | skip _ ih => exact .skip ih
  | same x _ ih => exact .same x ih
  | mark hexplicit _ ih => exact .mark hexplicit ih

/-- A change to picks that does not look at whether they are explicit, and does with their origins
what `g` does. -/
theorem mapPick {f : Pick P → Pick P} {g : List Name × Name → List Name × Name}
    (hmark : ∀ pick : Pick P, f { pick with explicit := true } = { f pick with explicit := true })
    (hexplicit : ∀ pick : Pick P, (f pick).explicit = pick.explicit)
    (horigin : ∀ pick : Pick P,
      ((f pick).path, (f pick).source.val) = g (pick.path, pick.source.val))
    (h : Marks origins s t) :
    Marks (origins.map g) (s.map (Selection.mapPick f)) (t.map (Selection.mapPick f)) := by
  induction h with
  | nil => exact .nil
  | skip _ ih => exact .skip ih
  | same x _ ih => exact .same _ ih
  | @mark _ _ _ pick form hpick _ ih =>
    have hhead : Marks _ (.leaf (f pick) form :: _) _ := .mark ((hexplicit pick).trans hpick) ih
    rw [horigin, ← hmark] at hhead
    exact hhead

/-- What does not depend on whether a selection is explicit stays as it is. -/
theorem map_eq {β : Type} {f : Selection P → β} (h : Marks origins s t)
    (hf : ∀ (pick : Pick P) (form : Form),
      f (leaf { pick with explicit := true } form) = f (leaf pick form)) :
    s.map f = t.map f := by
  induction h with
  | nil => rfl
  | skip _ ih => exact ih
  | same x _ ih => rw [List.map_cons, List.map_cons, ih]
  | mark _ _ ih => rw [List.map_cons, List.map_cons, ih, hf]

theorem names (h : Marks origins s t) : s.map name = t.map name :=
  h.map_eq fun _ _ => rfl

theorem filter (h : Marks origins s t) (p : Name → Bool) :
    Marks origins (s.filter fun x => p x.name) (t.filter fun x => p x.name) := by
  induction h with
  | nil => exact .nil
  | skip _ ih => exact .skip ih
  | same x _ ih =>
    rw [List.filter_cons, List.filter_cons]
    split
    · exact .same x ih
    · exact ih
  | @mark _ _ _ pick form hpick _ ih =>
    have hname : (leaf { pick with explicit := true } form).name = (leaf pick form).name := rfl
    rw [List.filter_cons, List.filter_cons, hname]
    split
    · exact .mark hpick ih
    · exact .skip ih

theorem explicit_relabel (pattern : Option AliasPattern) (item : Item P) (pick : Pick P) :
    (relabel pattern item pick).explicit = pick.explicit := by
  unfold relabel
  split
  · rfl
  · split <;> rfl

theorem congruent (origins : List (List Name × Name)) : Congruent (P := P) (Marks origins) where
  append_left a h := (refl a).append h
  append_right a h := by
    have happend := h.append (refl a)
    rwa [List.append_nil] at happend
  relabel pattern item h := by
    have hmarks := h.mapPick (f := relabel pattern item) (g := id) (by
      intro pick
      unfold relabel
      split
      · rfl
      · split <;> rfl)
      (explicit_relabel pattern item) (by
      intro pick
      rw [relabel_path, relabel_source]
      rfl)
    rwa [List.map_id] at hmarks
  names h := h.names
  filter p h := h.filter p

theorem through (h : Marks origins s t) (lead : Name) (a : Attribute) :
    Marks (origins.map fun o => (a.name :: o.1, o.2)) (s.map (through lead a))
      (t.map (Selection.through lead a)) :=
  h.mapPick (fun _ => rfl) (fun _ => rfl) (fun _ => rfl)

end Marks

/-! ### The macro and its items -/

/-- The item selects what the macro selects for the attribute, but explicitly. -/
theorem ofItem_item {m : Shorthand} {site : Site} (seen : List (Located P Name)) {a : Attribute}
    (name : Located P Name) (nullability : Option (Located P Nullability))
    (ha : schema.attribute? site.entity a.name = some a) (hcovers : m.covers a.kind = true)
    (hview : m = .allReferences → (schema.entity? site.entity).bind (·.idViewOf? a.name) = none) :
    ∃ pick form, ofMacro site.entity name nullability a = leaf pick form ∧
      pick.explicit = false ∧ (pick.path, pick.source.val) = ([], a.name) ∧
      ofItem schema site seen (m.item name.pos nullability a.name) =
        .ok [leaf { pick with explicit := true } form] := by
  cases m with
  | allScalars =>
    have hkind : a.kind.isAssociation = false := by
      cases hk : a.kind <;> simp_all [Shorthand.covers, Kind.isAssociation]
    unfold ofMacro
    rw [hkind]
    exact ⟨_, _, rfl, rfl, rfl, by rw [Shorthand.item, ofItem]; rfl⟩
  | allReferences =>
    have hkind : a.kind.isAssociation = true := by
      cases hk : a.kind <;> simp_all [Shorthand.covers, Kind.isAssociation]
    unfold ofMacro
    rw [hkind]
    refine ⟨_, _, rfl, rfl, rfl, ?_⟩
    rw [Shorthand.item, ofItem, idOnly, ha]
    simp only [hkind, hview rfl]
    rfl

/-- The items of some attributes in front of others, and what the macro selects for these. -/
theorem matches_items {m : Shorthand} {site : Site} (seen : List (Located P Name))
    (name : Located P Name) (nullability : Option (Located P Nullability))
    {attributes : List Attribute}
    (hattributes : ∀ a ∈ attributes, schema.attribute? site.entity a.name = some a ∧
      m.covers a.kind = true ∧
      (m = .allReferences → (schema.entity? site.entity).bind (·.idViewOf? a.name) = none))
    (after : List (Item P)) :
    Matches (Marks (attributes.map fun a => ([], a.name)))
      (do
        let rest ← ofItems schema site seen after
        return renamed site.pattern (.bundle name nullability)
          (attributes.map (ofMacro site.entity name nullability)) ++ rest)
      (ofItems schema site seen
        ((attributes.map (·.name)).map (m.item name.pos nullability) ++ after)) := by
  simp only [renamed_eq_map]
  induction attributes with
  | nil =>
    change Matches _ (ofItems schema site seen after >>= fun rest => pure ([] ++ rest))
      (ofItems schema site seen after)
    cases ofItems schema site seen after with
    | error fault => exact .error fault
    | ok rest => exact .ok (Marks.refl rest)
  | cons a attributes ih =>
    -- the first attribute is a selection of the bundle on one side and an item on the other
    obtain ⟨⟨ha, hcovers, hview⟩, hrest⟩ := List.forall_mem_cons.mp hattributes
    obtain ⟨pick, form, hbundle, hpick, horigin, hitem⟩ :=
      ofItem_item seen name nullability ha hcovers hview
    have halias : (m.item name.pos nullability a.name).hasAlias =
        (Item.bundle name nullability).hasAlias := by
      cases m <;> rfl
    have hseen : seen ++ macroOf (m.item name.pos nullability a.name) = seen := by
      cases m <;> exact List.append_nil seen
    have hhead : Marks [([], a.name)]
        ([leaf pick form].map (mapPick (relabel site.pattern (.bundle name nullability))))
        ([leaf { pick with explicit := true } form].map
          (mapPick (relabel site.pattern (.bundle name nullability)))) := by
      refine (Marks.congruent _).relabel _ _ ?_
      rw [← horigin]
      exact .mark hpick .nil
    have hleft : (do
          let rest ← ofItems schema site seen after
          return ((a :: attributes).map (ofMacro site.entity name nullability)).map
            (mapPick (relabel site.pattern (.bundle name nullability))) ++ rest) =
        (do
          let rest ← ofItems schema site seen after
          return (attributes.map (ofMacro site.entity name nullability)).map
            (mapPick (relabel site.pattern (.bundle name nullability))) ++ rest) >>= fun rest =>
          pure ([leaf pick form].map (mapPick (relabel site.pattern (.bundle name nullability))) ++
            rest) := by
      rw [List.map_cons, hbundle]
      cases ofItems schema site seen after <;> rfl
    have hright : ofItems schema site seen
          (((a :: attributes).map (·.name)).map (m.item name.pos nullability) ++ after) =
        ofItems schema site seen
          ((attributes.map (·.name)).map (m.item name.pos nullability) ++ after) >>= fun rest =>
          pure ([leaf { pick with explicit := true } form].map
            (mapPick (relabel site.pattern (.bundle name nullability))) ++ rest) := by
      rw [List.map_cons, List.map_cons, List.cons_append, ofItems, hitem, hseen]
      simp only [renamed_eq_map, relabel_of_hasAlias halias]
      rfl
    rw [hleft, hright]
    refine (ih hrest).bind ?_
    intro rest rest' hmarks
    exact .ok (hhead.append hmarks)

theorem bundle_text {m : Shorthand} (site : Site) {name : Located P Name}
    (hname : name.val = m.text) (nullability : Option (Located P Nullability)) :
    bundle schema site name nullability =
      .ok ((m.attributes schema site.entity site.explicit).map
        (ofMacro site.entity name nullability)) := by
  rw [bundle, m.macroAttributes_eq schema site.entity hname]
  have hfilter : ((schema.attributesOf site.entity).filter fun a => m.covers a.kind).filter
      (fun a => !site.explicit.contains a.name) =
        m.attributes schema site.entity site.explicit := by
    rw [List.filter_filter, Shorthand.attributes]
    congr 1
    funext a
    exact Bool.and_comm _ _
  exact congrArg (fun l => Except.ok (l.map (ofMacro site.entity name nullability))) hfilter

theorem val_mem_shorthands {item : Item P} {name : Located P Name} (h : name ∈ macroOf item) :
    name.val ∈ item.shorthands := by
  cases item with
  | bundle other nullability =>
    obtain rfl := List.mem_singleton.mp h
    exact List.mem_singleton.mpr rfl
  | _ => cases h

/-- The macro with the rest of its list, and its items in front of that rest. -/
theorem matches_bundle {m : Shorthand} {site : Site} {name : Located P Name}
    (nullability : Option (Located P Nullability)) {after : List (Item P)}
    (hname : name.val = m.text)
    (hview : m = .allReferences → ∀ a ∈ schema.attributesOf site.entity,
      m.covers a.kind = true → (schema.entity? site.entity).bind (·.idViewOf? a.name) = none)
    (hleaves : LeavesOutAlike (P := P) schema site.entity m.text site.explicit explicit')
    (hseen : SeenAlike m.text seen seen') (hfresh : ∀ other ∈ seen, other.val ≠ m.text)
    (hafter : m.text ∉ Item.shorthandsAll after) :
    Matches (Marks ((m.attributes schema site.entity site.explicit).map fun a => ([], a.name)))
      (ofItems schema site seen (.bundle name nullability :: after))
      (ofItems schema { site with explicit := explicit' } seen'
        (((m.attributes schema site.entity site.explicit).map (·.name)).map
          (m.item name.pos nullability) ++ after)) := by
  have hcheck : checkMacro seen name = .ok () := by
    have hnone : seen.find? (·.val == name.val) = none := by
      rw [List.find?_eq_none]
      intro other hother
      rw [hname]
      simpa using hfresh other hother
    rw [checkMacro, hnone]
  let site' : Site := { site with explicit := explicit' }
  have hattributes : ∀ a ∈ m.attributes schema site.entity site.explicit,
      schema.attribute? site'.entity a.name = some a ∧ m.covers a.kind = true ∧
        (m = .allReferences →
          (schema.entity? site'.entity).bind (·.idViewOf? a.name) = none) := by
    intro a ha
    obtain ⟨hmem, hcovers⟩ := List.mem_filter.mp ha
    rw [Bool.and_eq_true] at hcovers
    exact ⟨(Schema.mem_attributesOf.mp hmem).attribute?, hcovers.1,
      fun hm => hview hm a hmem hcovers.1⟩
  have hitems := matches_items seen' name nullability hattributes after
  rw [ofItems_of_leavesOutAlike site hleaves (hseen.drop hname) after hafter] at hitems
  rw [ofItems, ofItem, hcheck]
  simp only [bundle_text site hname]
  exact hitems

theorem not_mem_right_of_count {x : Name} {l l' : List Name} (h : (l ++ l').count x = 1)
    (hx : x ∈ l) : l.count x = 1 ∧ x ∉ l' := by
  have hpos := List.count_pos_iff.mpr hx
  rw [List.count_append] at h
  exact ⟨by omega, List.count_eq_zero.mp (by omega)⟩

theorem not_mem_left_of_count {x : Name} {l l' : List Name} (h : (l ++ l').count x = 1)
    (hx : x ∈ l') : l'.count x = 1 ∧ x ∉ l := by
  have hpos := List.count_pos_iff.mpr hx
  rw [List.count_append] at h
  exact ⟨by omega, List.count_eq_zero.mp (by omega)⟩

/-- **Spelling the macro out makes selections explicit**, and does nothing else. -/
theorem matches_spellsOut {m : Shorthand} {entity : Name} {explicit explicit' names : List Name}
    {items items' : List (Item P)}
    (hnames : names = (m.attributes schema entity explicit).map (·.name))
    (hview : m = .allReferences → ∀ a ∈ schema.attributesOf entity, m.covers a.kind = true →
      (schema.entity? entity).bind (·.idViewOf? a.name) = none)
    (hleaves : LeavesOutAlike (P := P) schema entity m.text explicit explicit')
    (h : Item.SpellsOut m names items items') :
    ∀ (site : Site) {seen seen' : List (Located P Name)}, site.entity = entity →
      site.explicit = explicit → SeenAlike m.text seen seen' →
      (∀ name ∈ seen, name.val ≠ m.text) → (Item.shorthandsAll items).count m.text = 1 →
      Matches (Marks (names.map fun n => ([], n))) (ofItems schema site seen items)
        (ofItems schema { site with explicit := explicit' } seen' items') := by
  induction h with
  | @here name nullability after hname =>
    rintro site seen seen' rfl rfl hseen hfresh honce
    have hafter := (not_mem_right_of_count honce (List.mem_singleton.mpr hname.symm)).2
    rw [hnames, List.map_map]
    exact matches_bundle nullability hname hview hleaves hseen hfresh hafter
  | @group pattern items items' extent after hspells ih =>
    rintro site seen seen' rfl rfl hseen hfresh honce
    obtain ⟨hcount, hafter⟩ := not_mem_right_of_count honce hspells.mem_shorthandsAll
    have hgroup : Matches (Marks (names.map fun n => ([], n)))
        (ofItem schema site seen (.group pattern items extent))
        (ofItem schema { site with explicit := explicit' } seen'
          (.group pattern items' extent)) := by
      rw [ofItem, ofItem]
      split
      · exact .error _
      · exact ih (site.grouped pattern.val) rfl rfl (.refl _ []) (by simp) hcount
    exact matches_ofItems_of_rest (Marks.congruent _) rfl hgroup rfl
      (ofItems_of_leavesOutAlike site hleaves (hseen.append []) after hafter)
  | @tail item items items' hspells ih =>
    rintro site seen seen' rfl rfl hseen hfresh honce
    obtain ⟨hcount, hitem⟩ := not_mem_left_of_count honce hspells.mem_shorthandsAll
    have hfresh' : ∀ name ∈ seen ++ macroOf item, name.val ≠ m.text := by
      intro name hmem
      rcases List.mem_append.mp hmem with hmem | hmem
      · exact hfresh name hmem
      · intro hval
        exact hitem (hval ▸ val_mem_shorthands hmem)
    exact matches_ofItems_of_first (Marks.congruent _) rfl
      (ofItem_of_leavesOutAlike site hleaves hseen item hitem)
      (ih site rfl rfl (hseen.append _) hfresh' hcount)

theorem mem_attributesOf_of_macroAttributes {entity : Name} {name : Located P Name}
    {attributes : List Attribute} (h : macroAttributes schema entity name = .ok attributes)
    {a : Attribute} (ha : a ∈ attributes) : a ∈ schema.attributesOf entity := by
  unfold macroAttributes at h
  split at h
  · cases h
    exact List.mem_of_mem_filter ha
  · split at h <;> cases h
    exact List.mem_of_mem_filter ha

end Selection

open Selection in
/-- The names that the body selects itself now are of no other macro. -/
theorem Item.SpellsOutBody.leavesOutAlike {m : Shorthand} {names : List Name} {entity : Name}
    {items items' : List (Item P)} (h : SpellsOutBody schema m names entity items items') :
    LeavesOutAlike (P := P) schema entity m.text (explicitNamesAll items)
      (explicitNamesAll items') := by
  intro name attributes hname hattributes
  apply List.filter_congr
  intro a ha
  have hother : a.name ∉ names := by
    rw [h.names_eq]
    intro hmem
    obtain ⟨b, hb, hab⟩ := List.mem_map.mp hmem
    obtain ⟨hmemb, hcovers⟩ := List.mem_filter.mp hb
    rw [Bool.and_eq_true] at hcovers
    have hmema := mem_attributesOf_of_macroAttributes hattributes ha
    have hsame : some b = some a := by
      rw [← (Schema.mem_attributesOf.mp hmemb).attribute?,
        ← (Schema.mem_attributesOf.mp hmema).attribute?, hab]
    obtain rfl := Option.some.inj hsame
    have hnot := Shorthand.not_covers_of_macroAttributes hattributes hname ha
    rw [hcovers.1] at hnot
    cases hnot
  have hiff : a.name ∈ explicitNamesAll items' ↔ a.name ∈ explicitNamesAll items := by
    rw [h.spellsOut.mem_explicitNamesAll, or_iff_right hother]
  rw [Bool.eq_iff_iff]
  simp [hiff]

open Selection in
theorem Item.SpellsOutBody.matches {m : Shorthand} {names : List Name} {site : Site}
    {items items' : List (Item P)} (h : SpellsOutBody schema m names site.entity items items') :
    Matches (Marks (names.map fun n => ([], n))) (ofBodyAt schema site items)
      (ofBodyAt schema site items') := by
  refine matches_bodyOf (Marks.congruent _) ?_ (negatives_eq_of_aside h.spellsOut.aside)
  exact matches_spellsOut h.names_eq h.noView h.leavesOutAlike h.spellsOut
    { site with explicit := explicitNamesAll items } rfl rfl (.refl _ []) (by simp) h.once

end Projection
