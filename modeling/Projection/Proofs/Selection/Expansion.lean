import Projection.Proofs.Schema.Route
import Projection.Proofs.Success
import Projection.Selection

/-!
# What the items of a body expand to

`Selection.ofItems` refuses a body at its first fault. `Selection.Expands` is the other half: one
rule for each kind of item, with what has to hold for the item and what it selects. Every success of
`ofItems` is derived by these rules (`expands_of_ofItems`), so what selections have in common is
proved by induction on a derivation and never looks at a refusal.

A body that belongs to an item is expanded at a site of its own. Only the site of a nested body has
one more enclosing type; a flattened body keeps the types around it, and an alias group keeps the
entity as well.
-/

namespace Projection

namespace Site

variable {P : Type}

/-- Where the body of a nested selection stands. -/
def nested (site : Site) (target property : Name) (items : List (Item P)) : Site where
  entity := target
  scopes := ⟨target, Selection.nestedTypeName property⟩ :: site.scopes
  explicit := Selection.explicitNamesAll items
  place := .nested

/-- Where the body of a flattened attribute stands. -/
def flattened (site : Site) (target : Name) (items : List (Item P)) : Site where
  entity := target
  scopes := site.scopes
  explicit := Selection.explicitNamesAll items
  place := .flatten

/-- Where the items of an alias group stand. -/
def grouped (site : Site) (pattern : AliasPattern) : Site :=
  { site with place := .group, pattern := some pattern }

end Site

namespace Selection

variable {P : Type} {schema : Schema}

/-! ### Negatives -/

/-- What a body keeps of the selections of its items. -/
def kept (items : List (Item P)) (selections : List (Selection P)) : List (Selection P) :=
  selections.filter fun s => !(negatives items).any (·.val == s.name)

theorem prune_eq_ok {names : List (Located P Name)} {selections rest : List (Selection P)}
    (h : prune names selections = .ok rest) :
    rest = selections.filter fun s => !names.any (·.val == s.name) := by
  induction names generalizing selections with
  | nil => cases h; simp
  | cons name names ih =>
    unfold prune at h
    split at h
    · rw [ih h, List.filter_filter]
      apply List.filter_congr
      intro s _
      rw [List.any_cons, Bool.not_or, Bool.and_comm, bne, BEq.comm]
    · cases h

theorem bodyOf_eq_ok {items : List (Item P)} {selected : Except (Fault P) (List (Selection P))}
    {body : List (Selection P)} (h : bodyOf items selected = .ok body) :
    ∃ all, selected = .ok all ∧ body = kept items all := by
  simp only [bodyOf, bind_eq_ok] at h
  obtain ⟨_, _, all, hall, hprune⟩ := h
  exact ⟨all, hall, prune_eq_ok hprune⟩

theorem mem_of_mem_kept {items : List (Item P)} {selections : List (Selection P)}
    {s : Selection P} (h : s ∈ kept items selections) : s ∈ selections :=
  (List.mem_filter.mp h).1

/-! ### Renaming -/

/-- What the pattern around an item changes about one of its picks: at most its name. -/
def relabel (pattern : Option AliasPattern) (item : Item P) (pick : Pick P) : Pick P :=
  match pattern with
  | none => pick
  | some pattern =>
    if item.hasAlias || pick.newName.isSome then pick
    else { pick with name := pattern.apply pick.name, newName := some (pattern.apply pick.name) }

section Relabel

variable (pattern : Option AliasPattern) (item : Item P) (pick : Pick P)

@[simp] theorem relabel_entity : (relabel pattern item pick).entity = pick.entity := by
  unfold relabel; split <;> [rfl; split <;> rfl]

@[simp] theorem relabel_source : (relabel pattern item pick).source = pick.source := by
  unfold relabel; split <;> [rfl; split <;> rfl]

@[simp] theorem relabel_path : (relabel pattern item pick).path = pick.path := by
  unfold relabel; split <;> [rfl; split <;> rfl]

@[simp] theorem relabel_throughNullable :
    (relabel pattern item pick).throughNullable = pick.throughNullable := by
  unfold relabel; split <;> [rfl; split <;> rfl]

end Relabel

theorem renamed_eq_map (pattern : Option AliasPattern) (item : Item P)
    (selected : List (Selection P)) :
    renamed pattern item selected = selected.map (mapPick (relabel pattern item)) := by
  have hid : mapPick (fun pick : Pick P => pick) = id := by
    funext s
    cases s <;> rfl
  cases pattern with
  | none =>
    change selected = selected.map (mapPick fun pick => pick)
    rw [hid, List.map_id]
  | some pattern =>
    unfold renamed relabel
    by_cases halias : item.hasAlias = true
    · simp only [halias, if_true, Bool.true_or]
      rw [hid, List.map_id]
    · simp only [halias, Bool.false_or, Bool.false_eq_true, if_false]

/-! ### The rules -/

/-- The selection of `id(property)` for a source and the name it has without an alias. -/
def idPick (entity : Name) (property : Located P Name)
    (nullability : Option (Located P Nullability)) (newName : Option (Located P Name))
    (source output : Name) : Pick P where
  entity := entity
  source := ⟨source, property.pos⟩
  path := []
  name := (newName.map (·.val)).getD output
  newName := newName.map (·.val)
  nullability := nullability
  throughNullable := false
  explicit := true

/-- What a macro selects at a site. -/
def macroPicks (site : Site) (name : Located P Name) (nullability : Option (Located P Nullability))
    (attributes : List Attribute) : List (Selection P) :=
  (attributes.filter fun a => !site.explicit.contains a.name).map
    (ofMacro site.entity name nullability)

/-- An item that opens no body selects these at a site. -/
inductive Yields (schema : Schema) (site : Site) : Item P → List (Selection P) → Prop
  | bundle {name nullability attributes} :
      macroAttributes schema site.entity name = .ok attributes →
      Yields schema site (.bundle name nullability) (macroPicks site name nullability attributes)
  | negative {name} : site.place ≠ .group → Yields schema site (.negative name) []
  | user {item} : site.place = .declaration → Yields schema site (.user item) []
  | plain {head} :
      head.recursive = false →
      Yields schema site (.plain head) [leaf (plainPick site.entity head) .value]
  | recursive {head a target many scope} :
      head.recursive = true →
      schema.attribute? site.entity head.name.val = some a → a.kind = .association target many →
      site.scopes.find? (·.entity == target) = some scope →
      Yields schema site (.plain head) [leaf (plainPick site.entity head) (.recursive scope.type)]
  -- The body of an unknown property is not opened: the fault is left to the binding of it.
  | unknown {head body extent} :
      head.recursive = false → schema.attribute? site.entity head.name.val = none →
      Yields schema site (.nested head body extent) [leaf (plainPick site.entity head) .value]
  | idView {property nullability newName a view} :
      schema.attribute? site.entity property.val = some a → a.kind.isAssociation = true →
      (schema.entity? site.entity).bind (·.idViewOf? property.val) = some view →
      Yields schema site (.idOnly property nullability newName)
        [leaf (idPick site.entity property nullability newName view.name view.name) .value]
  | idOnly {property nullability newName a} :
      schema.attribute? site.entity property.val = some a → a.kind.isAssociation = true →
      (schema.entity? site.entity).bind (·.idViewOf? property.val) = none →
      Yields schema site (.idOnly property nullability newName)
        [leaf (idPick site.entity property nullability newName property.val
          (idOnlyName property.val a.kind.isMany)) .idOnly]

/-- The items at a site expand to the selections. -/
inductive Expands (schema : Schema) : Site → List (Item P) → List (Selection P) → Prop
  | nil {site} : Expands schema site [] []
  | single {site item selected items rest} :
      Yields schema site item selected → Expands schema site items rest →
      Expands schema site (item :: items) (renamed site.pattern item selected ++ rest)
  | nested {site head a target body extent inner items rest} :
      head.recursive = false →
      schema.attribute? site.entity head.name.val = some a → a.kind.target? = some target →
      Expands schema (site.nested target head.name.val body) body inner →
      Expands schema site items rest →
      Expands schema site (.nested head body extent :: items)
        (renamed site.pattern (.nested head body extent)
          [nested (plainPick site.entity head) target (nestedTypeName head.name.val)
            (kept body inner)] ++ rest)
  | flatten {site property lead a target body extent inner items rest} :
      schema.attribute? site.entity property.val = some a → a.kind.single? = some target →
      Expands schema (site.flattened target body) body inner → Expands schema site items rest →
      Expands schema site (.flatten property lead body extent :: items)
        (renamed site.pattern (.flatten property lead body extent)
          ((kept body inner).map (through ((lead.map (·.val)).getD property.val) a)) ++ rest)
  | group {site pattern body extent inner items rest} :
      site.place ≠ .group → Expands schema (site.grouped pattern.val) body inner →
      Expands schema site items rest →
      Expands schema site (.group pattern body extent :: items)
        (renamed site.pattern (.group pattern body extent) inner ++ rest)

/-! ### Every success is derived -/

theorem flattened_eq_ok {site : Site} {property : Located P Name} {a : Attribute} {target : Name}
    (h : flattened schema site property = .ok (a, target)) :
    schema.attribute? site.entity property.val = some a ∧ a.kind.single? = some target := by
  unfold flattened at h
  split at h
  · cases h
  · rename_i b hb
    split at h
    · rename_i hk
      cases h
      exact ⟨hb, by rw [hk]; rfl⟩
    · rename_i hk
      cases h
      exact ⟨hb, by rw [hk]; rfl⟩
    · cases h
    · cases h

theorem yields_of_recursive {site : Site} {head : Selected P} {form : Form}
    (hrec : head.recursive = true) (h : recursiveForm schema site head.name = .ok form) :
    Yields schema site (.plain head) [leaf (plainPick site.entity head) form] := by
  unfold recursiveForm at h
  split at h
  · cases h
  · rename_i a ha
    split at h
    · rename_i target many hk
      split at h
      · rename_i scope hscope
        cases h
        exact .recursive hrec ha hk hscope
      · cases h
    · cases h

theorem yields_of_plain {site : Site} {head : Selected P} {selected : List (Selection P)}
    (h : plain schema site head = .ok selected) : Yields schema site (.plain head) selected := by
  unfold plain at h
  split at h
  · rename_i hrec
    simp only [bind_eq_ok, pure_eq_ok] at h
    obtain ⟨form, hform, rfl⟩ := h
    exact yields_of_recursive hrec hform
  · rename_i hrec
    cases h
    exact .plain (Bool.eq_false_iff.mpr hrec)

theorem yields_of_idOnly {site : Site} {property : Located P Name}
    {nullability : Option (Located P Nullability)} {newName : Option (Located P Name)}
    {selected : List (Selection P)}
    (h : idOnly schema site property nullability newName = .ok selected) :
    Yields schema site (.idOnly property nullability newName) selected := by
  unfold idOnly at h
  split at h
  · cases h
  · rename_i a ha
    split at h
    · rename_i hassoc
      split at h
      · rename_i view hview
        cases h
        exact .idView ha hassoc hview
      · rename_i hview
        cases h
        exact .idOnly ha hassoc hview
    · cases h

theorem yields_of_bundle {site : Site} {name : Located P Name}
    {nullability : Option (Located P Nullability)} {selected : List (Selection P)}
    (h : bundle schema site name nullability = .ok selected) :
    Yields schema site (.bundle name nullability) selected := by
  simp only [bundle, bind_eq_ok, pure_eq_ok] at h
  obtain ⟨attributes, hattributes, rfl⟩ := h
  exact .bundle hattributes

-- By recursion on the syntax, as `ofItem` and `ofItems` are. Macros seen before do not matter here:
-- they only decide which sources are refused.
mutual

/-- One item, in front of items that are already expanded. -/
theorem expands_cons_of_ofItem {site : Site} {seen : List (Located P Name)} :
    ∀ (item : Item P) {selected : List (Selection P)} {items : List (Item P)}
      {rest : List (Selection P)},
      ofItem schema site seen item = .ok selected → Expands schema site items rest →
      Expands schema site (item :: items) (renamed site.pattern item selected ++ rest)
  | .bundle name nullability, selected, items, rest, h, hrest => by
    simp only [ofItem, bind_eq_ok] at h
    obtain ⟨_, _, h⟩ := h
    exact .single (yields_of_bundle h) hrest
  | .negative name, selected, items, rest, h, hrest => by
    simp only [ofItem] at h
    split at h
    · cases h
    · cases h
      exact .single (.negative ‹_›) hrest
  | .user item, selected, items, rest, h, hrest => by
    simp only [ofItem] at h
    split at h
    · cases h
      exact .single (.user ‹_›) hrest
    · cases h
  | .plain head, selected, items, rest, h, hrest => by
    simp only [ofItem] at h
    exact .single (yields_of_plain h) hrest
  | .nested head body extent, selected, items, rest, h, hrest => by
    simp only [ofItem] at h
    split at h
    · cases h
    · rename_i hrec
      have hrec := Bool.eq_false_iff.mpr hrec
      split at h
      · cases h
        exact .single (.unknown hrec ‹_›) hrest
      · rename_i a ha
        split at h
        · cases h
        · rename_i target ht
          simp only [bind_eq_ok, pure_eq_ok] at h
          obtain ⟨inner, hinner, rfl⟩ := h
          obtain ⟨all, hall, rfl⟩ := bodyOf_eq_ok hinner
          exact .nested hrec ha ht (expands_of_ofItems body hall) hrest
  | .idOnly property nullability newName, selected, items, rest, h, hrest => by
    simp only [ofItem] at h
    exact .single (yields_of_idOnly h) hrest
  | .flatten property lead body extent, selected, items, rest, h, hrest => by
    simp only [ofItem, bind_eq_ok, pure_eq_ok] at h
    obtain ⟨⟨a, target⟩, hflat, inner, hinner, rfl⟩ := h
    obtain ⟨ha, ht⟩ := flattened_eq_ok hflat
    obtain ⟨all, hall, rfl⟩ := bodyOf_eq_ok hinner
    exact .flatten ha ht (expands_of_ofItems body hall) hrest
  | .group pattern body extent, selected, items, rest, h, hrest => by
    simp only [ofItem] at h
    split at h
    · cases h
    · exact .group ‹_› (expands_of_ofItems body h) hrest

/-- **Every expansion that succeeds is derived by the rules.** -/
theorem expands_of_ofItems {site : Site} {seen : List (Located P Name)} :
    ∀ (items : List (Item P)) {selections : List (Selection P)},
      ofItems schema site seen items = .ok selections → Expands schema site items selections
  | [], selections, h => by
    simp only [ofItems] at h
    cases h
    exact .nil
  | item :: items, selections, h => by
    simp only [ofItems, bind_eq_ok, pure_eq_ok] at h
    obtain ⟨selected, hselected, rest, hrest, rfl⟩ := h
    exact expands_cons_of_ofItem item hselected (expands_of_ofItems items hrest)

end

/-- The selections of a declaration are those of its items, less what its negatives name. -/
theorem expands_of_ofBody {entity type : Name} {body : Body P} {selections : List (Selection P)}
    (h : ofBody schema entity type body = .ok selections) :
    ∃ all, Expands schema
        { entity, scopes := [⟨entity, type⟩], explicit := explicitNamesAll body.items
          place := .declaration } body.items all ∧
      selections = kept body.items all := by
  obtain ⟨all, hall, rfl⟩ := bodyOf_eq_ok h
  exact ⟨all, expands_of_ofItems body.items hall, rfl⟩

end Selection

end Projection
