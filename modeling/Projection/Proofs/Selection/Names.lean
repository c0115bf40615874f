import Projection.Proofs.Selection.Expansion

/-!
# The names that a body puts out

The names of what a body selects can be read off the body and the schema without expanding anything.
`Item.outputs` does so for an item, `Item.outputsAll` for items in their order, and `Body.names` for
a body with its negatives. An output also knows whether an alias or a pattern gave the name, since
such a name is not changed by another pattern around it.

`Selection.Expands.outputs` proves that expansion agrees: nothing is dropped, doubled or moved.
-/

namespace Projection

variable {P : Type} {schema : Schema}

/-- A name in the output. It is `given` if an alias or the pattern of a group made it. -/
structure Output where
  name : Name
  given : Bool
  deriving DecidableEq, Repr

namespace Output

/-- The alias, or else a name. -/
def ofAlias (newName : Option (Located P Name)) (name : Name) : Output :=
  ⟨(newName.map (·.val)).getD name, newName.isSome⟩

/-- What a group makes of the output of an item, which has an alias or not. -/
def inGroup (pattern : Option AliasPattern) (hasAlias : Bool) (o : Output) : Output :=
  match pattern with
  | none => o
  | some pattern => if hasAlias || o.given then o else ⟨pattern.apply o.name, true⟩

/-- The output of a flattened attribute. -/
def through (lead : Name) (o : Output) : Output :=
  ⟨lead ++ Text.capitalize o.name, o.given⟩

end Output

namespace Item

/-- The name of the ids behind an association: `department` gives `departmentId`, and `employees`
gives `employeeIds`. -/
def idName (property : Name) (many : Bool) : Name :=
  if many then
    if property.toList.getLast? = some 's' then String.ofList property.toList.dropLast ++ "Ids"
    else property ++ "Ids"
  else property ++ "Id"

/-- The name of `id(property)` without an alias: that of the id view, if there is one. -/
def idItemName (schema : Schema) (entity property : Name) : Name :=
  match (schema.entity? entity).bind (·.idViewOf? property) with
  | some view => view.name
  | none => idName property ((schema.attribute? entity property).any (·.kind.isMany))

/-- The names of a macro, in the order of the entity, without those that the body selects itself. -/
def macroNames (schema : Schema) (entity : Name) (explicit : List Name) (name : Name) : List Name :=
  let free := (schema.attributesOf entity).filter fun a => a.name ∉ explicit
  if name = "allScalars" then (free.filter (·.kind.isScalar)).map (·.name)
  else if name = "allReferences" then
    (free.filter fun a => a.kind.isAssociation && !a.kind.isMany).map (·.name ++ "Id")
  else []

/-- What the negatives of a body leave of its outputs. -/
def afterNegatives (items : List (Item P)) (outputs : List Output) : List Output :=
  outputs.filter fun o => o.name ∉ (Selection.negatives items).map (·.val)

mutual

/-- The outputs of an item of a body that selects the names `explicit` itself. -/
def outputs (schema : Schema) (entity : Name) (explicit : List Name) : Item P → List Output
  | .plain head => [.ofAlias head.newName head.name.val]
  | .nested head _ _ => [.ofAlias head.newName head.name.val]
  | .idOnly property _ newName => [.ofAlias newName (idItemName schema entity property.val)]
  | .bundle name _ => (macroNames schema entity explicit name.val).map (⟨·, false⟩)
  | .flatten property lead items _ =>
    match (schema.attribute? entity property.val).bind (·.kind.single?) with
    | some target =>
      (afterNegatives items
        (outputsAll schema target (Selection.explicitNamesAll items) none items)).map
        (.through ((lead.map (·.val)).getD property.val))
    | none => []
  | .group pattern items _ => outputsAll schema entity explicit (some pattern.val) items
  | .negative _ | .user _ => []

/-- The outputs of items in their order, within a group with this pattern or in none. -/
def outputsAll (schema : Schema) (entity : Name) (explicit : List Name)
    (pattern : Option AliasPattern) : List (Item P) → List Output
  | [] => []
  | item :: items =>
    (outputs schema entity explicit item).map (.inGroup pattern item.hasAlias) ++
      outputsAll schema entity explicit pattern items

end

end Item

/-- The names that the body of a declaration puts out, apart from user-defined properties. -/
def Body.names (schema : Schema) (entity : Name) (body : Body P) : List Name :=
  (Item.afterNegatives body.items
    (Item.outputsAll schema entity (Selection.explicitNamesAll body.items) none body.items)).map
    (·.name)

/-- What a pick puts out. -/
def Pick.output (pick : Pick P) : Output :=
  ⟨pick.name, pick.newName.isSome⟩

namespace Selection

/-- What a selection puts out. -/
def output (s : Selection P) : Output :=
  s.pick.output

@[simp] theorem output_leaf (pick : Pick P) (form : Form) :
    (leaf pick form).output = pick.output :=
  rfl

@[simp] theorem output_nested (pick : Pick P) (entity type : Name) (inner : List (Selection P)) :
    (nested pick entity type inner).output = pick.output :=
  rfl

/-! ### Single items -/

@[simp] theorem output_plainPick (entity : Name) (head : Selected P) :
    (plainPick entity head).output = .ofAlias head.newName head.name.val := by
  simp [plainPick, Pick.output, Output.ofAlias]

@[simp] theorem output_idPick (entity : Name) (property : Located P Name)
    (nullability : Option (Located P Nullability)) (newName : Option (Located P Name))
    (source output : Name) :
    (idPick entity property nullability newName source output).output =
      .ofAlias newName output := by
  simp [idPick, Pick.output, Output.ofAlias]

theorem idOnlyName_eq (property : Name) (many : Bool) :
    idOnlyName property many = Item.idName property many := by
  cases many with
  | false => rfl
  | true =>
    -- A tail is taken off the reversed text, so the name is split at its last letter.
    rcases List.eq_nil_or_concat property.toList with hnil | ⟨front, last, hlast⟩
    · simp [idOnlyName, Item.idName, AliasPattern.withoutTail?, AliasPattern.withoutLead?, hnil]
    · by_cases hs : last = 's'
      · simp [idOnlyName, Item.idName, AliasPattern.withoutTail?, AliasPattern.withoutLead?, hlast,
          hs]
      · simp [idOnlyName, Item.idName, AliasPattern.withoutTail?, AliasPattern.withoutLead?, hlast,
          hs, Ne.symm hs]

theorem output_relabel (pattern : Option AliasPattern) (item : Item P) (pick : Pick P) :
    (relabel pattern item pick).output = pick.output.inGroup pattern item.hasAlias := by
  cases pattern with
  | none => rfl
  | some pattern =>
    by_cases h : (item.hasAlias || pick.newName.isSome) = true
    · simp only [relabel, Output.inGroup, Pick.output, h, if_true]
    · simp only [relabel, Output.inGroup, Pick.output, h, if_false, Option.isSome_some,
        Bool.false_eq_true]

theorem map_output_renamed (pattern : Option AliasPattern) (item : Item P)
    (selected : List (Selection P)) :
    (renamed pattern item selected).map output =
      (selected.map output).map (.inGroup pattern item.hasAlias) := by
  rw [renamed_eq_map, List.map_map, List.map_map]
  apply List.map_congr_left
  intro s _
  cases s <;> exact output_relabel pattern item _

theorem map_output_kept (items : List (Item P)) (selections : List (Selection P)) :
    (kept items selections).map output = Item.afterNegatives items (selections.map output) := by
  unfold kept Item.afterNegatives
  rw [List.filter_map]
  congr 1
  apply List.filter_congr
  intro s _
  show (!(negatives items).any (·.val == s.name)) =
    decide (s.name ∉ (negatives items).map (·.val))
  rw [Bool.eq_iff_iff, decide_eq_true_iff]
  simp

theorem map_output_through (lead : Name) (a : Attribute) (selections : List (Selection P)) :
    (selections.map (through lead a)).map output = (selections.map output).map (.through lead) := by
  rw [List.map_map, List.map_map]
  apply List.map_congr_left
  intro s _
  cases s <;> rfl

theorem output_ofMacro (entity : Name) (name : Located P Name)
    (nullability : Option (Located P Nullability)) (a : Attribute) :
    (ofMacro entity name nullability a).output =
      ⟨if a.kind.isAssociation then idOnlyName a.name a.kind.isMany else a.name, false⟩ := by
  unfold ofMacro
  split <;> simp [Pick.output]

theorem map_output_macroPicks {site : Site} {name : Located P Name}
    {nullability : Option (Located P Nullability)} {attributes : List Attribute}
    (h : macroAttributes schema site.entity name = .ok attributes) :
    (macroPicks site name nullability attributes).map output =
      (Item.macroNames schema site.entity site.explicit name.val).map (⟨·, false⟩) := by
  -- The macro filters by kind before it leaves out names, the list of names does so after.
  have hcomm : ∀ (keep : Attribute → Bool) (all : List Attribute),
      (all.filter keep).filter (fun a => !site.explicit.contains a.name) =
        (all.filter fun a => a.name ∉ site.explicit).filter keep := by
    intro keep all
    rw [List.filter_filter, List.filter_filter]
    apply List.filter_congr
    intro a _
    simp [Bool.and_comm]
  unfold macroAttributes at h
  unfold macroPicks Item.macroNames
  split at h
  · rename_i hscalars
    cases h
    rw [hcomm, if_pos (by simpa using hscalars), List.map_map, List.map_map]
    apply List.map_congr_left
    intro a ha
    have hscalar := (List.mem_filter.mp ha).2
    have hassoc : a.kind.isAssociation = false := by
      cases hk : a.kind <;> simp_all [Kind.isScalar, Kind.isAssociation]
    simp [output_ofMacro, hassoc]
  · split at h
    · rename_i hscalars hreferences
      cases h
      rw [hcomm, if_neg (by simpa using hscalars), if_pos (by simpa using hreferences),
        List.map_map, List.map_map]
      apply List.map_congr_left
      intro a ha
      have hkind := (List.mem_filter.mp ha).2
      rw [Bool.and_eq_true, Bool.not_eq_true'] at hkind
      simp [output_ofMacro, hkind.1, hkind.2, idOnlyName]
    · cases h

/-! ### Items in their order -/

theorem Yields.outputs {site : Site} {item : Item P} {selected : List (Selection P)}
    (h : Yields schema site item selected) :
    selected.map output = Item.outputs schema site.entity site.explicit item := by
  cases h with
  | bundle hattributes => exact map_output_macroPicks hattributes
  | negative => rfl
  | user => rfl
  | plain => simp [Item.outputs]
  | recursive => simp [Item.outputs]
  | unknown => simp [Item.outputs]
  | idView _ _ hview => simp [Item.outputs, Item.idItemName, hview]
  | idOnly ha _ hview => simp [Item.outputs, Item.idItemName, hview, ha, idOnlyName_eq]

/-- **Expansion puts out the names of the items**, each in its place. -/
theorem Expands.outputs {site : Site} {items : List (Item P)} {selections : List (Selection P)}
    (h : Expands schema site items selections) :
    selections.map output =
      Item.outputsAll schema site.entity site.explicit site.pattern items := by
  induction h with
  | nil => rfl
  | single hyields _ ih =>
    rw [List.map_append, map_output_renamed, hyields.outputs, ih, Item.outputsAll]
  | nested _ _ _ _ _ _ ih =>
    rw [List.map_append, map_output_renamed, ih, Item.outputsAll]
    simp [Item.outputs]
  | flatten ha htarget _ _ ihbody ih =>
    rw [List.map_append, map_output_renamed, map_output_through, map_output_kept, ihbody, ih,
      Item.outputsAll, Item.outputs, ha, Option.bind_some, htarget]
    rfl
  | group _ _ _ ihbody ih =>
    -- The body of a group has the entity and the explicit names of the body around it.
    rw [List.map_append, map_output_renamed, ihbody, ih, Item.outputsAll, Item.outputs]
    rfl

/-- The selections of a declaration have the names of its body. -/
theorem map_name_ofBody {entity type : Name} {body : Body P} {selections : List (Selection P)}
    (h : ofBody schema entity type body = .ok selections) :
    selections.map name = body.names schema entity := by
  obtain ⟨all, hall, rfl⟩ := expands_of_ofBody h
  have hnames : ((kept body.items all).map output).map (·.name) = body.names schema entity := by
    rw [map_output_kept, hall.outputs, Body.names]
  rw [← hnames, List.map_map]
  rfl

end Selection

end Projection
