import Projection.Proofs.Selection.Expansion

/-!
# Changing one body in its context

Two sources that differ in one body only are expanded alike everywhere else. Here is what that means
for a list of items: if one item of a list selects something else, and what it selects is related to
what it selected before, then so is what the whole list selects (`Selection.matches_ofItems_head`,
`Selection.matches_ofItems_tail`), whatever stands around it. `Congruent` says which relations can
be carried out of a list in this way.

Two contexts are built from such steps. `Item.Flattened` is the way from the body of a type to a
body that is flattened into it, through bodies of flattened attributes and alias groups, and
remembers the flattened names. `Item.Nested` is the way from any body to the body of a nested type
below it.
-/

namespace Projection

/-- Two computations end alike: with results that are related, or with the same fault. -/
inductive Matches {ε α β : Type} (R : α → β → Prop) : Except ε α → Except ε β → Prop
  | ok {a : α} {b : β} : R a b → Matches R (.ok a) (.ok b)
  | error (e : ε) : Matches R (.error e) (.error e)

namespace Matches

variable {ε α β γ δ : Type} {R : α → β → Prop} {S : γ → δ → Prop}

theorem refl {R : α → α → Prop} (h : ∀ a, R a a) (x : Except ε α) : Matches R x x := by
  cases x with
  | ok a => exact .ok (h a)
  | error e => exact .error e

theorem bind {x : Except ε α} {y : Except ε β} {f : α → Except ε γ} {g : β → Except ε δ}
    (h : Matches R x y) (hnext : ∀ a b, R a b → Matches S (f a) (g b)) :
    Matches S (x >>= f) (y >>= g) := by
  cases h with
  | ok hab => exact hnext _ _ hab
  | error e => exact .error e

/-- After the same first step. -/
theorem bind_same {x : Except ε α} {f : α → Except ε γ} {g : α → Except ε δ}
    (hnext : ∀ a, Matches S (f a) (g a)) : Matches S (x >>= f) (x >>= g) := by
  cases x with
  | ok a => exact hnext a
  | error e => exact .error e

theorem imp {x : Except ε α} {y : Except ε β} {R' : α → β → Prop} (h : Matches R x y)
    (himp : ∀ a b, x = .ok a → R a b → R' a b) : Matches R' x y := by
  cases h with
  | ok hab => exact .ok (himp _ _ rfl hab)
  | error e => exact .error e

end Matches

namespace Selection

variable {P : Type} {schema : Schema}

/-- The selections of a body at a site, which is told what the body selects itself. -/
def ofBodyAt (schema : Schema) (site : Site) (items : List (Item P)) :
    Except (Fault P) (List (Selection P)) :=
  bodyOf items (ofItems schema { site with explicit := explicitNamesAll items } [] items)

/-! ### Relations that can be carried out of a list -/

/-- A relation between selections that is kept by what a list of items, an alias group and a body do
to the selections of one item. -/
structure Congruent (R : List (Selection P) → List (Selection P) → Prop) : Prop where
  append_left {s t : List (Selection P)} (a : List (Selection P)) : R s t → R (a ++ s) (a ++ t)
  append_right {s t : List (Selection P)} (a : List (Selection P)) : R s t → R (s ++ a) (t ++ a)
  relabel {s t : List (Selection P)} (pattern : Option AliasPattern) (item : Item P) :
    R s t → R (s.map (mapPick (relabel pattern item))) (t.map (mapPick (relabel pattern item)))
  names {s t : List (Selection P)} : R s t → s.map name = t.map name
  filter {s t : List (Selection P)} (p : Name → Bool) :
    R s t → R (s.filter fun x => p x.name) (t.filter fun x => p x.name)

section Congruent

variable {R : List (Selection P) → List (Selection P) → Prop} {site : Site}
  {seen : List (Located P Name)} {item item' : Item P} {items items' : List (Item P)}

theorem relabel_of_hasAlias (h : item'.hasAlias = item.hasAlias) (pattern : Option AliasPattern) :
    relabel pattern item' = relabel pattern item := by
  funext pick
  cases pattern with
  | none => rfl
  | some pattern => simp only [relabel, h]

/-- The first item of a list changes, perhaps with its site, and the items behind it select the
same. -/
theorem matches_ofItems_of_rest (hR : Congruent R) {site' : Site} {seen' : List (Located P Name)}
    (hpattern : site'.pattern = site.pattern)
    (hitem : Matches R (ofItem schema site seen item) (ofItem schema site' seen' item'))
    (halias : item'.hasAlias = item.hasAlias)
    (hrest : ofItems schema site' (seen' ++ macroOf item') items =
      ofItems schema site (seen ++ macroOf item) items) :
    Matches R (ofItems schema site seen (item :: items))
      (ofItems schema site' seen' (item' :: items)) := by
  rw [ofItems, ofItems, hrest, hpattern]
  refine hitem.bind ?_
  intro first first' hfirst
  refine .bind_same ?_
  intro rest
  rw [renamed_eq_map, renamed_eq_map, relabel_of_hasAlias halias]
  exact .ok (hR.append_right rest (hR.relabel _ _ hfirst))

/-- The first item of a list selects the same, perhaps at another site, and the items behind it
change. -/
theorem matches_ofItems_of_first (hR : Congruent R) {site' : Site} {seen' : List (Located P Name)}
    (hpattern : site'.pattern = site.pattern)
    (hitem : ofItem schema site' seen' item = ofItem schema site seen item)
    (hitems : Matches R (ofItems schema site (seen ++ macroOf item) items)
      (ofItems schema site' (seen' ++ macroOf item) items')) :
    Matches R (ofItems schema site seen (item :: items))
      (ofItems schema site' seen' (item :: items')) := by
  rw [ofItems, ofItems, hitem, hpattern]
  refine .bind_same ?_
  intro first
  refine hitems.bind ?_
  intro rest rest' hrest
  exact .ok (hR.append_left _ hrest)

/-- The first item of a list changes. -/
theorem matches_ofItems_head (hR : Congruent R)
    (hitem : Matches R (ofItem schema site seen item) (ofItem schema site seen item'))
    (halias : item'.hasAlias = item.hasAlias) (hbundle : macroOf item' = macroOf item) :
    Matches R (ofItems schema site seen (item :: items))
      (ofItems schema site seen (item' :: items)) :=
  matches_ofItems_of_rest hR rfl hitem halias (by rw [hbundle])

/-- A later item of a list changes. -/
theorem matches_ofItems_tail (hR : Congruent R)
    (hitems : ∀ seen, Matches R (ofItems schema site seen items)
      (ofItems schema site seen items')) :
    Matches R (ofItems schema site seen (item :: items))
      (ofItems schema site seen (item :: items')) :=
  matches_ofItems_of_first hR rfl rfl (hitems _)

theorem matches_prune (hR : Congruent R) {s t : List (Selection P)} (h : R s t)
    (names : List (Located P Name)) : Matches R (prune names s) (prune names t) := by
  induction names generalizing s t with
  | nil => exact .ok h
  | cons name names ih =>
    have hany : (s.any (·.name == name.val)) = t.any (·.name == name.val) := by
      have hmap := congrArg (List.any · (· == name.val)) (hR.names h)
      simpa only [List.any_map, Function.comp_def] using hmap
    rw [prune, prune, ← hany]
    split
    · exact ih (hR.filter (· != name.val) h)
    · exact .error _

/-- A body changes, with negatives that stay. -/
theorem matches_bodyOf (hR : Congruent R) {x y : Except (Fault P) (List (Selection P))}
    (h : Matches R x y) (hnegatives : negatives items' = negatives items) :
    Matches R (bodyOf items x) (bodyOf items' y) := by
  rw [bodyOf, bodyOf, hnegatives]
  refine .bind_same ?_
  intro _
  refine h.bind ?_
  intro s t hst
  exact matches_prune hR hst _

/-- The items of an alias group change. -/
theorem matches_ofItem_group {pattern : Located P AliasPattern} {extent : P}
    (h : Matches R (ofItems schema (site.grouped pattern.val) [] items)
      (ofItems schema (site.grouped pattern.val) [] items')) :
    Matches R (ofItem schema site seen (.group pattern items extent))
      (ofItem schema site seen (.group pattern items' extent)) := by
  rw [ofItem, ofItem]
  split
  · exact .error _
  · exact h

theorem flattened_of_single {property : Located P Name} {a : Attribute} {target : Name}
    (ha : schema.attribute? site.entity property.val = some a)
    (htarget : a.kind.single? = some target) :
    flattened schema site property = .ok (a, target) := by
  obtain ⟨name, type, nullable, kind⟩ := a
  simp only [flattened, ha]
  cases kind with
  | association other many =>
    cases many with
    | true => cases htarget
    | false =>
      cases htarget
      rfl
  | scalar embedded =>
    obtain rfl : embedded = some target := htarget
    rfl
  | _ => cases htarget

/-- The body of a flattened attribute changes. -/
theorem matches_ofItem_flatten {R' : List (Selection P) → List (Selection P) → Prop}
    {property : Located P Name} {lead : Option (Located P Name)} {extent : P} {a : Attribute}
    {target : Name} (ha : schema.attribute? site.entity property.val = some a)
    (htarget : a.kind.single? = some target)
    (h : Matches R (ofBodyAt schema (site.flattened target items) items)
      (ofBodyAt schema (site.flattened target items) items'))
    (hthrough : ∀ s t lead, R s t → R' (s.map (through lead a)) (t.map (through lead a))) :
    Matches R' (ofItem schema site seen (.flatten property lead items extent))
      (ofItem schema site seen (.flatten property lead items' extent)) := by
  rw [ofItem, ofItem, flattened_of_single ha htarget]
  refine Matches.bind (R := R) h ?_
  intro s t hst
  exact .ok (hthrough s t _ hst)

/-- The body of a nested selection changes. -/
theorem matches_ofItem_nested {R' : List (Selection P) → List (Selection P) → Prop}
    {head : Selected P} {extent : P} {a : Attribute} {target : Name}
    (ha : schema.attribute? site.entity head.name.val = some a)
    (htarget : a.kind.target? = some target)
    (h : Matches R (ofBodyAt schema (site.nested target head.name.val items) items)
      (ofBodyAt schema (site.nested target head.name.val items) items'))
    (hnested : ∀ s t pick type, R s t →
      R' [nested pick target type s] [nested pick target type t]) :
    Matches R' (ofItem schema site seen (.nested head items extent))
      (ofItem schema site seen (.nested head items' extent)) := by
  rw [ofItem, ofItem, ha]
  split
  · exact .error _
  · simp only [htarget]
    refine Matches.bind (R := R) h ?_
    intro s t hst
    exact .ok (hnested s t _ _ hst)

end Congruent

end Selection

/-! ### Contexts -/

namespace Item

variable {P : Type}

/-- What stands in a body without selecting anything. -/
def aside : Item P → Option (Item P)
  | .negative name => some (.negative name)
  | .user item => some (.user item)
  | _ => none

theorem negatives_eq_of_aside {items items' : List (Item P)}
    (h : items'.filterMap aside = items.filterMap aside) :
    Selection.negatives items' = Selection.negatives items := by
  have hcommon (items : List (Item P)) : Selection.negatives items =
      Selection.negatives (items.filterMap aside) := by
    rw [Selection.negatives, Selection.negatives, List.filterMap_filterMap]
    congr 1
    funext item
    cases item <;> rfl
  rw [hcommon items', h, ← hcommon]

variable (schema : Schema) (R : Name → List (Item P) → List (Item P) → Prop)

/-- A body that is flattened into items at an entity changes, through these flattened names. -/
inductive Flattened : Name → List Name → List (Item P) → List (Item P) → Prop
  | body {entity target property lead extent a body body' after} :
      schema.attribute? entity property.val = some a → a.kind.single? = some target →
      R target body body' →
      Flattened entity [property.val] (.flatten property lead body extent :: after)
        (.flatten property lead body' extent :: after)
  | further {entity target property path lead extent a body body' after} :
      schema.attribute? entity property.val = some a → a.kind.single? = some target →
      Flattened target path body body' →
      Flattened entity (property.val :: path) (.flatten property lead body extent :: after)
        (.flatten property lead body' extent :: after)
  | group {entity path pattern extent items items' after} :
      Flattened entity path items items' →
      Flattened entity path (.group pattern items extent :: after)
        (.group pattern items' extent :: after)
  | tail {entity path item items items'} :
      Flattened entity path items items' →
      Flattened entity path (item :: items) (item :: items')

/-- The body of a nested type, at any depth below items at an entity, changes. -/
inductive Nested : Name → List (Item P) → List (Item P) → Prop
  | body {entity target head extent a body body' after} :
      schema.attribute? entity head.name.val = some a → a.kind.target? = some target →
      R target body body' →
      Nested entity (.nested head body extent :: after) (.nested head body' extent :: after)
  | further {entity target head extent a body body' after} :
      schema.attribute? entity head.name.val = some a → a.kind.target? = some target →
      Nested target body body' →
      Nested entity (.nested head body extent :: after) (.nested head body' extent :: after)
  | flatten {entity target property lead extent a body body' after} :
      schema.attribute? entity property.val = some a → a.kind.single? = some target →
      Nested target body body' →
      Nested entity (.flatten property lead body extent :: after)
        (.flatten property lead body' extent :: after)
  | group {entity pattern extent items items' after} :
      Nested entity items items' →
      Nested entity (.group pattern items extent :: after) (.group pattern items' extent :: after)
  | tail {entity item items items'} :
      Nested entity items items' → Nested entity (item :: items) (item :: items')

variable {schema R} {entity : Name} {path : List Name} {items items' : List (Item P)}

theorem Flattened.aside (h : Flattened schema R entity path items items') :
    items'.filterMap aside = items.filterMap aside := by
  induction h with
  | tail _ ih => rw [List.filterMap_cons, List.filterMap_cons, ih]
  | _ => rfl

theorem Flattened.explicitNames (h : Flattened schema R entity path items items') :
    Selection.explicitNamesAll items' = Selection.explicitNamesAll items := by
  induction h with
  | group _ ih =>
    simp only [Selection.explicitNamesAll, Selection.explicitNames, ih]
  | tail _ ih => rw [Selection.explicitNamesAll, Selection.explicitNamesAll, ih]
  | _ => rfl

theorem Nested.aside (h : Nested schema R entity items items') :
    items'.filterMap aside = items.filterMap aside := by
  induction h with
  | tail _ ih => rw [List.filterMap_cons, List.filterMap_cons, ih]
  | _ => rfl

theorem Nested.explicitNames (h : Nested schema R entity items items') :
    Selection.explicitNamesAll items' = Selection.explicitNamesAll items := by
  induction h with
  | group _ ih =>
    simp only [Selection.explicitNamesAll, Selection.explicitNames, ih]
  | tail _ ih => rw [Selection.explicitNamesAll, Selection.explicitNamesAll, ih]
  | _ => rfl

open Selection in
/-- The items of a body change, and neither what it selects itself nor what stands aside. -/
theorem matches_ofBodyAt (schema : Schema) (site : Site)
    {S : List (Selection P) → List (Selection P) → Prop} (hS : Congruent S)
    (haside : items'.filterMap Item.aside = items.filterMap Item.aside)
    (hexplicit : explicitNamesAll items' = explicitNamesAll items)
    (h : ∀ seen, Matches S
      (ofItems schema { site with explicit := explicitNamesAll items } seen items)
      (ofItems schema { site with explicit := explicitNamesAll items } seen items')) :
    Matches S (ofBodyAt schema site items) (ofBodyAt schema site items') := by
  rw [ofBodyAt, ofBodyAt, hexplicit]
  exact matches_bodyOf hS (h []) (negatives_eq_of_aside haside)

open Selection in
/-- What a change does to a body, it does to a body that the first one is flattened into. -/
theorem Flattened.matches {S : List Name → List (Selection P) → List (Selection P) → Prop}
    (hS : ∀ path, Congruent (S path))
    (hthrough : ∀ path s t lead a, S path s t →
      S (a.name :: path) (s.map (through lead a)) (t.map (through lead a)))
    (hbody : ∀ site items items', site.pattern = none → site.place ≠ .group →
      R site.entity items items' →
      Matches (S []) (ofBodyAt schema site items) (ofBodyAt schema site items'))
    (h : Flattened schema R entity path items items') :
    ∀ (site : Site) (seen : List (Located P Name)), site.entity = entity →
      Matches (S path) (ofItems schema site seen items) (ofItems schema site seen items') := by
  induction h with
  | @body _ target property _ _ a body body' _ ha htarget hR =>
    rintro site seen rfl
    refine matches_ofItems_head (hS _) ?_ rfl rfl
    refine matches_ofItem_flatten ha htarget
      (hbody (site.flattened target body) _ _ rfl Place.noConfusion hR) ?_
    intro s t lead hst
    have hname := (Schema.attribute?_eq_some_iff.mp ha).2
    rw [← hname]
    exact hthrough _ s t lead a hst
  | @further _ target property path _ _ a body body' _ ha htarget hflat ih =>
    rintro site seen rfl
    have hbodies := matches_ofBodyAt schema (site.flattened target body) (hS path) hflat.aside
      hflat.explicitNames fun seen => ih _ seen rfl
    refine matches_ofItems_head (hS _) ?_ rfl rfl
    refine matches_ofItem_flatten ha htarget hbodies ?_
    intro s t lead hst
    have hname := (Schema.attribute?_eq_some_iff.mp ha).2
    rw [← hname]
    exact hthrough _ s t lead a hst
  | group _ ih =>
    rintro site seen rfl
    exact matches_ofItems_head (hS _) (matches_ofItem_group (ih _ _ rfl)) rfl rfl
  | tail _ ih =>
    rintro site seen rfl
    exact matches_ofItems_tail (hS _) fun seen => ih site seen rfl

open Selection in
/-- What a change does to the body of a nested type, it does to every body around that. -/
theorem Nested.matches {B S : List (Selection P) → List (Selection P) → Prop}
    (hS : Congruent S)
    (hthrough : ∀ s t lead a, S s t → S (s.map (through lead a)) (t.map (through lead a)))
    (hnested : ∀ s t pick target type, B s t →
      S [Selection.nested pick target type s] [Selection.nested pick target type t])
    (hsame : ∀ s t, S s t → B s t)
    (hbody : ∀ site items items', site.pattern = none → site.place ≠ .group →
      R site.entity items items' →
      Matches B (ofBodyAt schema site items) (ofBodyAt schema site items'))
    (h : Nested schema R entity items items') :
    ∀ (site : Site) (seen : List (Located P Name)), site.entity = entity →
      Matches S (ofItems schema site seen items) (ofItems schema site seen items') := by
  induction h with
  | @body _ target head _ a body body' _ ha htarget hR =>
    rintro site seen rfl
    refine matches_ofItems_head hS ?_ rfl rfl
    refine matches_ofItem_nested ha htarget
      (hbody (site.nested target head.name.val body) _ _ rfl Place.noConfusion hR) ?_
    intro s t pick type hst
    exact hnested s t pick target type hst
  | @further _ target head _ a body body' _ ha htarget hnest ih =>
    rintro site seen rfl
    have hbodies := matches_ofBodyAt schema (site.nested target head.name.val body) hS hnest.aside
      hnest.explicitNames fun seen => ih _ seen rfl
    refine matches_ofItems_head hS ?_ rfl rfl
    refine matches_ofItem_nested ha htarget hbodies ?_
    intro s t pick type hst
    exact hnested s t pick target type (hsame s t hst)
  | @flatten _ target property _ _ a body body' _ ha htarget hnest ih =>
    rintro site seen rfl
    have hbodies := matches_ofBodyAt schema (site.flattened target body) hS hnest.aside
      hnest.explicitNames fun seen => ih _ seen rfl
    refine matches_ofItems_head hS ?_ rfl rfl
    refine matches_ofItem_flatten ha htarget hbodies ?_
    intro s t lead hst
    exact hthrough s t lead a hst
  | group _ ih =>
    rintro site seen rfl
    exact matches_ofItems_head hS (matches_ofItem_group (ih _ _ rfl)) rfl rfl
  | tail _ ih =>
    rintro site seen rfl
    exact matches_ofItems_tail hS fun seen => ih site seen rfl

end Item

end Projection
