import Projection.Proofs.Selection.Names

/-!
# Which item an output comes from

An output of a body was either written, as a plain item or as `id(..)`, or found by a macro. The
difference is lost in the output itself, but it can be read off the body: `Item.entries` lists, next
to every name that an item puts out, the attribute that a written item reads, with the flattened
names on the way to it, and the body of a nested selection. `Item.bodyEntries` does so for a body
with its negatives.

`Selection.Expands.traces` proves that expansion agrees with these lists at every depth: a selection
counts as explicit exactly if its entry was written.
-/

namespace Projection

variable {P : Type} {schema : Schema}

/-- An output with what it comes from. A written item has an `origin`, the flattened names on the
way and the attribute that it reads; a nested selection has the entity and the items of its body. -/
structure Entry (P : Type) where
  output : Output
  origin : Option (List Name × Name) := none
  body : Option (Name × List (Item P)) := none

namespace Entry

/-- What a group makes of the entry of an item, which has an alias or not. -/
def inGroup (pattern : Option AliasPattern) (hasAlias : Bool) (e : Entry P) : Entry P :=
  { e with output := e.output.inGroup pattern hasAlias }

/-- The entry of a flattened attribute, whose origin is one step further away. -/
def through (lead property : Name) (e : Entry P) : Entry P :=
  { e with
    output := e.output.through lead
    origin := e.origin.map fun o => (property :: o.1, o.2) }

end Entry

namespace Item

/-- The attribute that `id(property)` reads: the id view, if there is one. -/
def idItemSource (schema : Schema) (entity property : Name) : Name :=
  (((schema.entity? entity).bind (·.idViewOf? property)).map (·.name)).getD property

/-- What the negatives of a body leave of its entries. -/
def entriesAfterNegatives (items : List (Item P)) (entries : List (Entry P)) : List (Entry P) :=
  entries.filter fun e => e.output.name ∉ (Selection.negatives items).map (·.val)

mutual

/-- The entries of an item of a body that selects the names `explicit` itself. -/
def entries (schema : Schema) (entity : Name) (explicit : List Name) : Item P → List (Entry P)
  | .plain head => [{
      output := .ofAlias head.newName head.name.val
      origin := some ([], head.name.val) }]
  | .nested head items _ => [{
      output := .ofAlias head.newName head.name.val
      origin := some ([], head.name.val)
      body := ((schema.attribute? entity head.name.val).bind (·.kind.target?)).map (·, items) }]
  | .idOnly property _ newName => [{
      output := .ofAlias newName (idItemName schema entity property.val)
      origin := some ([], idItemSource schema entity property.val) }]
  | .bundle name _ =>
    (macroNames schema entity explicit name.val).map fun n => { output := ⟨n, false⟩ }
  | .flatten property lead items _ =>
    match (schema.attribute? entity property.val).bind (·.kind.single?) with
    | some target =>
      (entriesAfterNegatives items
        (entriesAll schema target (Selection.explicitNamesAll items) none items)).map
        (.through ((lead.map (·.val)).getD property.val) property.val)
    | none => []
  | .group pattern items _ => entriesAll schema entity explicit (some pattern.val) items
  | .negative _ | .user _ => []

/-- The entries of items in their order, within a group with this pattern or in none. -/
def entriesAll (schema : Schema) (entity : Name) (explicit : List Name)
    (pattern : Option AliasPattern) : List (Item P) → List (Entry P)
  | [] => []
  | item :: items =>
    (entries schema entity explicit item).map (.inGroup pattern item.hasAlias) ++
      entriesAll schema entity explicit pattern items

end

/-- The entries of a body at an entity. -/
def bodyEntries (schema : Schema) (entity : Name) (items : List (Item P)) : List (Entry P) :=
  entriesAfterNegatives items
    (entriesAll schema entity (Selection.explicitNamesAll items) none items)

end Item

/-- The flattened names and the attribute of a pick that was written out. -/
def Pick.origin (pick : Pick P) : Option (List Name × Name) :=
  if pick.explicit then some (pick.path, pick.source.val) else none

namespace Selection

/-- The selection is what the entry stands for, and so are those of its body. -/
inductive Traces (schema : Schema) : Selection P → Entry P → Prop
  | leaf {pick form e} :
      pick.output = e.output → pick.origin = e.origin → e.body = none →
      Traces schema (.leaf pick form) e
  | nested {pick entity type inner items e} :
      pick.output = e.output → pick.origin = e.origin → e.body = some (entity, items) →
      List.Forall₂ (Traces schema) inner (Item.bodyEntries schema entity items) →
      Traces schema (.nested pick entity type inner) e

namespace Traces

variable {s : Selection P} {e : Entry P}

theorem output (h : Traces schema s e) : s.output = e.output := by
  cases h <;> assumption

theorem origin (h : Traces schema s e) : s.pick.origin = e.origin := by
  cases h <;> assumption

/-- A change to the pick of a selection is followed by the same change to its entry. -/
theorem mapPick {f : Pick P → Pick P} {e' : Entry P} (h : Traces schema s e)
    (houtput : (f s.pick).output = e'.output) (horigin : (f s.pick).origin = e'.origin)
    (hbody : e'.body = e.body) : Traces schema (s.mapPick f) e' := by
  cases h with
  | leaf _ _ hnone => exact .leaf houtput horigin (hbody.trans hnone)
  | nested _ _ hsome hinner => exact .nested houtput horigin (hbody.trans hsome) hinner

end Traces

/-! ### Renaming, flattening and negatives -/

theorem origin_relabel (pattern : Option AliasPattern) (item : Item P) (pick : Pick P) :
    (relabel pattern item pick).origin = pick.origin := by
  have hexplicit : (relabel pattern item pick).explicit = pick.explicit := by
    unfold relabel
    split
    · rfl
    · split <;> rfl
  simp [Pick.origin, hexplicit]

theorem traces_renamed {pattern : Option AliasPattern} {item : Item P}
    {selected : List (Selection P)} {entries : List (Entry P)}
    (h : List.Forall₂ (Traces schema) selected entries) :
    List.Forall₂ (Traces schema) (renamed pattern item selected)
      (entries.map (.inGroup pattern item.hasAlias)) := by
  rw [renamed_eq_map, List.forall₂_map_left_iff, List.forall₂_map_right_iff]
  refine h.imp ?_
  intro s e hs
  refine hs.mapPick ?_ ?_ rfl
  · rw [output_relabel, Entry.inGroup, ← hs.output]
    rfl
  · rw [origin_relabel]
    exact hs.origin

theorem traces_through {lead : Name} {a : Attribute} {selected : List (Selection P)}
    {entries : List (Entry P)} (h : List.Forall₂ (Traces schema) selected entries) :
    List.Forall₂ (Traces schema) (selected.map (through lead a))
      (entries.map (.through lead a.name)) := by
  rw [List.forall₂_map_left_iff, List.forall₂_map_right_iff]
  refine h.imp ?_
  intro s e hs
  refine hs.mapPick ?_ ?_ rfl
  · rw [Entry.through, ← hs.output]
    rfl
  · rw [Entry.through, ← hs.origin]
    unfold Pick.origin
    split <;> rfl

theorem traces_kept {items : List (Item P)} {selected : List (Selection P)}
    {entries : List (Entry P)} (h : List.Forall₂ (Traces schema) selected entries) :
    List.Forall₂ (Traces schema) (kept items selected)
      (Item.entriesAfterNegatives items entries) := by
  refine List.rel_filter ?_ h
  intro s e hs
  have hname : s.name = e.output.name := congrArg Output.name hs.output
  simp [hname]

/-! ### Items -/

/-- What a macro finds has no origin. -/
theorem traces_ofMacro (entity : Name) (name : Located P Name)
    (nullability : Option (Located P Nullability)) (a : Attribute) :
    Traces schema (ofMacro entity name nullability a)
      { output := (ofMacro entity name nullability a).output } := by
  unfold ofMacro
  split <;> exact .leaf rfl rfl rfl

theorem traces_macroPicks {site : Site} {name : Located P Name}
    {nullability : Option (Located P Nullability)} {attributes : List Attribute}
    (h : macroAttributes schema site.entity name = .ok attributes) :
    List.Forall₂ (Traces schema) (macroPicks site name nullability attributes)
      (Item.entries schema site.entity site.explicit (.bundle name nullability)) := by
  have hentries : Item.entries schema site.entity site.explicit (.bundle name nullability) =
      (macroPicks site name nullability attributes).map fun s => { output := s.output } := by
    have hpicks : (macroPicks site name nullability attributes).map output = _ :=
      map_output_macroPicks h
    have houtputs := congrArg (List.map fun o => ({ output := o } : Entry P)) hpicks
    rw [List.map_map, List.map_map] at houtputs
    exact houtputs.symm
  rw [hentries, List.forall₂_map_right_iff, List.forall₂_same]
  intro s hs
  obtain ⟨a, _, rfl⟩ := List.mem_map.mp hs
  exact traces_ofMacro site.entity name nullability a

theorem Yields.traces {site : Site} {item : Item P} {selected : List (Selection P)}
    (h : Yields schema site item selected) :
    List.Forall₂ (Traces schema) selected (Item.entries schema site.entity site.explicit item) := by
  cases h with
  | bundle hattributes => exact traces_macroPicks hattributes
  | negative => exact .nil
  | user => exact .nil
  | plain => exact .cons (.leaf (output_plainPick _ _) rfl rfl) .nil
  | recursive => exact .cons (.leaf (output_plainPick _ _) rfl rfl) .nil
  | unknown _ hnone =>
    refine .cons (.leaf (output_plainPick _ _) rfl ?_) .nil
    simp [hnone]
  | idView _ _ hview =>
    refine .cons (.leaf ?_ ?_ rfl) .nil
    · simp [Item.idItemName, hview]
    · simp [Item.idItemSource, hview, Pick.origin, idPick]
  | idOnly ha _ hview =>
    refine .cons (.leaf ?_ ?_ rfl) .nil
    · simp [Item.idItemName, hview, ha, idOnlyName_eq]
    · simp [Item.idItemSource, hview, Pick.origin, idPick]

/-- **Expansion follows the entries** of the items, each in its place. -/
theorem Expands.traces {site : Site} {items : List (Item P)} {selections : List (Selection P)}
    (h : Expands schema site items selections) :
    List.Forall₂ (Traces schema) selections
      (Item.entriesAll schema site.entity site.explicit site.pattern items) := by
  induction h with
  | nil => exact .nil
  | single hyields _ ih => exact List.rel_append (traces_renamed hyields.traces) ih
  | nested _ ha htarget _ _ ihbody ih =>
    refine List.rel_append (traces_renamed ?_) ih
    rw [Item.entries, ha, Option.bind_some, htarget]
    exact .cons (.nested (output_plainPick _ _) rfl rfl (traces_kept ihbody)) .nil
  | flatten ha htarget _ _ ihbody ih =>
    refine List.rel_append (traces_renamed ?_) ih
    have hname := (Schema.attribute?_eq_some_iff.mp ha).2
    rw [Item.entries, ha, Option.bind_some, htarget, ← hname]
    exact traces_through (traces_kept ihbody)
  | group _ _ _ ihbody ih => exact List.rel_append (traces_renamed ihbody) ih

end Selection

end Projection
