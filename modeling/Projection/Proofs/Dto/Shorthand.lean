import Projection.Proofs.Dto.Distinct
import Projection.Proofs.Dto.Nesting
import Projection.Proofs.Selection.Shorthand

/-!
# Macros equal the selection they stand for

A source with a macro compiles like the source in which the macro is spelled out. The only
difference that expansion leaves, which selections are explicit, matters to one check: no attribute
is written out twice in one type, with the same flattened names before it. In the body of a type the
check cannot fail for the macro's attributes, since the macro left out what the body names. A
flattened body shares the check with the type that it is flattened into, and that may write out the
same attribute in another body with the same flattened names (`Company.spelled_out_is_refused`). So
`Source.compile_spelled_out` asks for flattened bodies that the type does not.
-/

namespace Projection

variable {P Q : Type} {schema : Schema}

/-! ### Binding -/

namespace Property

/-- What is taken differs in origins that no selection ahead has, and none of the attributes ahead
that become explicit is taken. -/
structure TakenAlike (origins : List (List Name × Name)) (ahead : List (Selection P))
    (taken taken' : Taken P) : Prop where
  outputs : taken'.outputs = taken.outputs
  written : ∀ x ∈ ahead, ∀ o, x.pick.origin = some o →
    taken'.origins.find? (·.val == o) = taken.origins.find? (·.val == o)
  fresh : ∀ o ∈ origins, taken'.origins.find? (·.val == o) = none

namespace TakenAlike

variable {origins : List (List Name × Name)} {x : Selection P} {ahead : List (Selection P)}
  {taken taken' : Taken P}

theorem checkOrigin (h : TakenAlike origins (x :: ahead) taken taken') :
    taken'.checkOrigin x.pick = taken.checkOrigin x.pick := by
  unfold Taken.checkOrigin origin?
  by_cases hexplicit : x.pick.explicit = true
  · have horigin : x.pick.origin = some (x.pick.path, x.pick.source.val) := if_pos hexplicit
    simp only [hexplicit, if_true, Option.bind_some]
    rw [h.written x List.mem_cons_self _ horigin]
  · simp [hexplicit]

theorem checkOutput (h : TakenAlike origins ahead taken taken') (type : Name) (pick : Pick P) :
    taken'.checkOutput type pick = taken.checkOutput type pick := by
  unfold Taken.checkOutput
  rw [h.outputs]

theorem find?_singleton_of_ne {o o' : List Name × Name} (h : o' ≠ o) (pos : P) :
    [(⟨o', pos⟩ : Located P (List Name × Name))].find? (·.val == o) = none := by
  rw [Located.find?_val_eq_none]
  simpa using h.symm

theorem find?_origin?_of_ne {pick : Pick P} {o : List Name × Name} (h : pick.origin ≠ some o) :
    (origin? pick).toList.find? (·.val == o) = none := by
  unfold origin?
  unfold Pick.origin at h
  split
  · rename_i hexplicit
    rw [if_pos hexplicit] at h
    exact find?_singleton_of_ne (fun heq => h (congrArg some heq)) _
  · rfl

/-- A selection that stays as it is. -/
theorem add (h : TakenAlike origins (x :: ahead) taken taken')
    (hx : ∀ o ∈ origins, x.pick.origin ≠ some o) :
    TakenAlike origins ahead (taken.add x.pick) (taken'.add x.pick) where
  outputs := by
    rw [Taken.add, Taken.add, h.outputs]
  written y hy o ho := by
    rw [Taken.add, Taken.add, List.find?_append, List.find?_append,
      h.written y (List.mem_cons_of_mem x hy) o ho]
  fresh o ho := by
    rw [Taken.add, List.find?_append, h.fresh o ho, find?_origin?_of_ne (hx o ho)]
    rfl

/-- A selection that becomes explicit. -/
theorem add_mark {pick : Pick P} {form : Form} (hpick : pick.explicit = false)
    (h : TakenAlike ((pick.path, pick.source.val) :: origins) (.leaf pick form :: ahead) taken
      taken') (hnew : (pick.path, pick.source.val) ∉ origins)
    (hahead : ∀ y ∈ ahead, y.pick.origin ≠ some (pick.path, pick.source.val)) :
    TakenAlike origins ahead (taken.add pick) (taken'.add { pick with explicit := true }) where
  outputs := by
    rw [Taken.add, Taken.add, h.outputs]
  written y hy o ho := by
    have hne : (pick.path, pick.source.val) ≠ o := by
      rintro rfl
      exact hahead y hy ho
    have hnone : origin? pick = none := by
      rw [origin?, hpick]
      rfl
    have hone : (origin? { pick with explicit := true }).toList.find? (·.val == o) = none :=
      find?_singleton_of_ne hne pick.source.pos
    rw [Taken.add, Taken.add, List.find?_append, List.find?_append,
      h.written y (List.mem_cons_of_mem _ hy) o ho, hnone, hone]
    rfl
  fresh o ho := by
    have hne : (pick.path, pick.source.val) ≠ o := by
      rintro rfl
      exact hnew ho
    have hone : (origin? { pick with explicit := true }).toList.find? (·.val == o) = none :=
      find?_singleton_of_ne hne pick.source.pos
    rw [Taken.add, List.find?_append, h.fresh o (List.mem_cons_of_mem _ ho), hone]
    rfl

end TakenAlike

variable {traits : Traits} {mutable : Bool}

open Selection in
/-- **Selections that become explicit are bound alike**, if nothing else reads what they read. -/
theorem ofSelections_of_marks {type : Name} {origins : List (List Name × Name)}
    {s t : List (Selection P)} (h : Marks origins s t) (hnodup : origins.Nodup)
    (hothers : ∀ x ∈ s, ∀ o ∈ origins, x.pick.origin ≠ some o) {taken taken' : Taken P}
    (htaken : TakenAlike origins s taken taken') :
    ofSelections schema traits mutable type taken' t =
      ofSelections schema traits mutable type taken s := by
  induction h generalizing taken taken' with
  | nil => rfl
  | @skip origin origins s t _ ih =>
    refine ih (List.nodup_cons.mp hnodup).2 ?_ ?_
    · intro x hx o ho
      exact hothers x hx o (List.mem_cons_of_mem _ ho)
    · exact ⟨htaken.outputs, htaken.written, fun o ho => htaken.fresh o (List.mem_cons_of_mem _ ho)⟩
  | @same origins s t x _ ih =>
    obtain ⟨hx, hrest⟩ := List.forall_mem_cons.mp hothers
    rw [ofSelections, ofSelections, htaken.checkOrigin, htaken.checkOutput,
      ih hnodup hrest (htaken.add hx)]
  | @mark origins s t pick form hpick _ ih =>
    obtain ⟨_, hrest⟩ := List.forall_mem_cons.mp hothers
    obtain ⟨hnew, hnodup⟩ := List.nodup_cons.mp hnodup
    have hahead : ∀ y ∈ s, y.pick.origin ≠ some (pick.path, pick.source.val) := by
      intro y hy
      exact hrest y hy _ List.mem_cons_self
    have hunmarked : taken.checkOrigin pick = .ok () := by
      rw [Taken.checkOrigin, origin?, hpick]
      rfl
    have hmarked : taken'.checkOrigin { pick with explicit := true } = .ok () := by
      have hnone := htaken.fresh _ List.mem_cons_self
      simp only [Taken.checkOrigin, origin?, if_true, Option.bind_some, hnone]
    have htail := ih hnodup (fun y hy o ho => hrest y hy o (List.mem_cons_of_mem _ ho))
      (htaken.add_mark hpick hnew hahead)
    have hproperty : ofSelection schema traits mutable (.leaf { pick with explicit := true } form) =
        ofSelection schema traits mutable (.leaf pick form) := rfl
    have houtput : taken'.checkOutput type { pick with explicit := true } =
        taken.checkOutput type pick := htaken.checkOutput type pick
    rw [ofSelections, ofSelections, hproperty]
    simp only [Selection.pick]
    rw [hmarked, hunmarked, houtput, htail]

end Property

/-! ### What a type writes out -/

/-- The attribute is an id view of the entity. -/
def Schema.IsIdView (schema : Schema) (entity name : Name) : Prop :=
  ∃ association view,
    (schema.entity? entity).bind (·.idViewOf? association) = some view ∧ view.name = name

namespace Item

variable {entity : Name} {explicit : List Name}

mutual

/-- What an item reads without flattened names before it, it names itself, or it is an id view. -/
theorem mem_explicitNames_of_origin : ∀ (item : Item P) {e : Entry P} {name : Name},
    e ∈ entries schema entity explicit item → e.origin = some ([], name) →
    name ∈ Selection.explicitNames item ∨ schema.IsIdView entity name
  | .plain head, e, name, he, horigin => by
    obtain rfl := List.mem_singleton.mp he
    cases horigin
    exact .inl (List.mem_singleton.mpr rfl)
  | .nested head items extent, e, name, he, horigin => by
    obtain rfl := List.mem_singleton.mp he
    cases horigin
    exact .inl (List.mem_singleton.mpr rfl)
  | .idOnly property nullability newName, e, name, he, horigin => by
    obtain rfl := List.mem_singleton.mp he
    cases hview : (schema.entity? entity).bind (·.idViewOf? property.val) with
    | none =>
      have hsource : idItemSource schema entity property.val = property.val := by
        rw [idItemSource, hview]
        rfl
      cases horigin
      rw [hsource]
      exact .inl (List.mem_singleton.mpr rfl)
    | some view =>
      have hsource : idItemSource schema entity property.val = view.name := by
        rw [idItemSource, hview]
        rfl
      cases horigin
      exact .inr ⟨property.val, view, hview, hsource.symm⟩
  | .bundle other nullability, e, name, he, horigin => by
    obtain ⟨n, _, rfl⟩ := List.mem_map.mp he
    cases horigin
  | .flatten property lead items extent, e, name, he, horigin => by
    rw [entries] at he
    split at he
    · obtain ⟨inner, _, rfl⟩ := List.mem_map.mp he
      obtain ⟨o, _, ho⟩ := Option.map_eq_some_iff.mp horigin
      cases ho
    · cases he
  | .group pattern items extent, e, name, he, horigin => by
    rw [entries] at he
    exact mem_explicitNamesAll_of_origin items he horigin
  | .negative _, e, name, he, _ | .user _, e, name, he, _ => by
    cases he

theorem mem_explicitNamesAll_of_origin : ∀ (items : List (Item P))
    {pattern : Option AliasPattern} {e : Entry P} {name : Name},
    e ∈ entriesAll schema entity explicit pattern items → e.origin = some ([], name) →
    name ∈ Selection.explicitNamesAll items ∨ schema.IsIdView entity name
  | [], pattern, e, name, he, _ => by
    cases he
  | item :: items, pattern, e, name, he, horigin => by
    rw [entriesAll, List.mem_append] at he
    rw [Selection.explicitNamesAll, List.mem_append]
    rcases he with he | he
    · obtain ⟨inner, hinner, rfl⟩ := List.mem_map.mp he
      exact (mem_explicitNames_of_origin item hinner horigin).imp_left .inl
    · exact (mem_explicitNamesAll_of_origin items he horigin).imp_left .inr

end

variable {m : Shorthand} {names : List Name} {items items' : List (Item P)}

theorem SpellsOutBody.nodup (h : SpellsOutBody schema m names entity items items') :
    names.Nodup := by
  rw [h.names_eq, Shorthand.attributes]
  have hall : ((schema.attributesOf entity).map (·.name)).Nodup := by
    unfold Schema.attributesOf
    cases schema.entity? entity with
    | none => exact List.nodup_nil
    | some e => exact e.distinct
  exact hall.sublist (List.filter_sublist.map _)

/-- The attributes of the macro are not written out elsewhere in its own body. -/
theorem SpellsOutBody.origin_ne (h : SpellsOutBody schema m names entity items items')
    {name : Name} (hname : name ∈ names) {e : Entry P}
    (he : e ∈ bodyEntries schema entity items) : e.origin ≠ some ([], name) := by
  intro horigin
  rw [h.names_eq] at hname
  obtain ⟨a, ha, rfl⟩ := List.mem_map.mp hname
  obtain ⟨hmem, hcovers⟩ := List.mem_filter.mp ha
  simp only [Bool.and_eq_true, Bool.not_eq_true', List.contains_eq_mem, decide_eq_false_iff_not]
    at hcovers
  rcases mem_explicitNamesAll_of_origin items (List.mem_of_mem_filter he) horigin with
    hexplicit | ⟨association, view, hview, hname⟩
  · exact hcovers.2 hexplicit
  · -- An id view is an attribute of its own kind, and no other has its name.
    obtain ⟨owner, howner, hfind⟩ := Option.bind_eq_some_iff.mp hview
    have hdeclares : schema.Declares entity view := ⟨owner, howner, List.mem_of_find?_eq_some hfind⟩
    have hsame : some view = some a := by
      rw [← hdeclares.attribute?, hname, (Schema.mem_attributesOf.mp hmem).attribute?]
    obtain rfl := Option.some.inj hsame
    have hkind : view.kind = .idView association := by
      simpa using List.find?_some hfind
    rw [hkind] at hcovers
    cases m <;> cases hcovers.1

/-- The macro is spelled out in the body of a type, or in a body that is flattened into it. In the
second case the type does not write out, with the same flattened names, what the macro stands
for. -/
inductive SpellsOutType (schema : Schema) (m : Shorthand) (entity : Name)
    (items items' : List (Item P)) : Prop
  | own {names : List Name} :
      SpellsOutBody schema m names entity items items' → SpellsOutType schema m entity items items'
  | flattened {names path : List Name} :
      Flattened schema (SpellsOutBody schema m names) entity path items items' →
      (∀ name ∈ names, ∀ e ∈ bodyEntries schema entity items, e.origin ≠ some (path, name)) →
      SpellsOutType schema m entity items items'

theorem Flattened.exists_body {R : Name → List (Item P) → List (Item P) → Prop} {path : List Name}
    (h : Flattened schema R entity path items items') :
    ∃ target body body', R target body body' := by
  induction h with
  | body _ _ hR => exact ⟨_, _, _, hR⟩
  | further _ _ _ ih => exact ih
  | group _ ih => exact ih
  | tail _ ih => exact ih

end Item

namespace Selection

/-- The selections put out the same names at the same places, and are bound to the same
properties. -/
structure SameProperties (schema : Schema) (s t : List (Selection P)) : Prop where
  outputs : s.map (fun x => (⟨x.name, x.pick.source.pos⟩ : Located P Name)) =
    t.map fun x => ⟨x.name, x.pick.source.pos⟩
  properties : ∀ traits mutable type,
    Property.ofSelections schema traits mutable type {} t =
      Property.ofSelections schema traits mutable type {} s

theorem Marks.sameProperties {origins : List (List Name × Name)} {s t : List (Selection P)}
    (h : Marks origins s t) (hnodup : origins.Nodup)
    (hothers : ∀ x ∈ s, ∀ o ∈ origins, x.pick.origin ≠ some o) : SameProperties schema s t where
  outputs := h.map_eq fun _ _ => rfl
  properties _ _ _ :=
    Property.ofSelections_of_marks h hnodup hothers
      ⟨rfl, fun _ _ _ _ => rfl, fun _ _ => rfl⟩

/-- The explicit selections of a body are those that it writes out. -/
theorem exists_entry_of_ofBodyAt {site : Site} {items : List (Item P)} {s : List (Selection P)}
    (hpattern : site.pattern = none) (h : ofBodyAt schema site items = .ok s) {x : Selection P}
    (hx : x ∈ s) : ∃ e ∈ Item.bodyEntries schema site.entity items, x.pick.origin = e.origin := by
  obtain ⟨all, hall, rfl⟩ := bodyOf_eq_ok h
  have htraces : List.Forall₂ (Traces schema) (kept items all) _ :=
    traces_kept (expands_of_ofItems items hall).traces
  obtain ⟨e, he, htrace⟩ := exists_mem_of_forall₂ htraces.flip hx
  simp only [hpattern] at he
  exact ⟨e, he, htrace.origin⟩

/-- **The type has the same properties**, whether it uses the macro or spells it out. -/
theorem matches_spellsOutType {m : Shorthand} {site : Site} {items items' : List (Item P)}
    (hpattern : site.pattern = none) (h : Item.SpellsOutType schema m site.entity items items') :
    Matches (SameProperties schema) (ofBodyAt schema site items)
      (ofBodyAt schema site items') := by
  cases h with
  | @own names hbody =>
    refine hbody.matches.imp ?_
    intro s t hs hmarks
    refine hmarks.sameProperties ?_ ?_
    · exact hbody.nodup.map fun n n' heq => (Prod.mk.inj heq).2
    · intro x hx o ho
      obtain ⟨n, hn, rfl⟩ := List.mem_map.mp ho
      obtain ⟨e, he, horigin⟩ := exists_entry_of_ofBodyAt hpattern hs hx
      rw [horigin]
      exact hbody.origin_ne hn he
  | @flattened names path hflat hothers =>
    have hmatches := hflat.matches (S := fun path => Marks (names.map fun n => (path, n)))
      (fun path => Marks.congruent _) (by
        intro path s t lead a hmarks
        have hthrough := hmarks.through lead a
        rw [List.map_map] at hthrough
        exact hthrough) (fun site items items' _ _ hbody => hbody.matches)
    have hbodies := Item.matches_ofBodyAt schema site (Marks.congruent _) hflat.aside
      hflat.explicitNames fun seen => hmatches _ seen rfl
    refine hbodies.imp ?_
    intro s t hs hmarks
    refine hmarks.sameProperties ?_ ?_
    · obtain ⟨_, _, _, hbody⟩ := hflat.exists_body
      exact hbody.nodup.map fun n n' heq => (Prod.mk.inj heq).2
    · intro x hx o ho
      obtain ⟨n, hn, rfl⟩ := List.mem_map.mp ho
      obtain ⟨e, he, horigin⟩ := exists_entry_of_ofBodyAt hpattern hs hx
      rw [horigin]
      exact hothers n hn e he

/-! ### Types around a type -/

/-- The selections are the same, but for the selections of a nested type that has the same
properties. -/
inductive SameProperty (schema : Schema) : Selection P → Selection P → Prop
  | refl (x : Selection P) : SameProperty schema x x
  | nested {pick : Pick P} {entity type : Name} {s t : List (Selection P)} :
      SameProperties schema s t →
      SameProperty schema (.nested pick entity type s) (.nested pick entity type t)

namespace SameProperty

variable {x y : Selection P} {s t : List (Selection P)}

theorem pick_eq (h : SameProperty schema x y) : y.pick = x.pick := by
  cases h <;> rfl

theorem mapPick (f : Pick P → Pick P) (h : SameProperty schema x y) :
    SameProperty schema (x.mapPick f) (y.mapPick f) := by
  cases h with
  | refl => exact .refl _
  | nested hinner => exact .nested hinner

theorem ofSelection_eq (h : SameProperty schema x y) (traits : Traits) (mutable : Bool) :
    Property.ofSelection schema traits mutable y =
      Property.ofSelection schema traits mutable x := by
  cases h with
  | refl => rfl
  | @nested pick entity type s t hinner =>
    rw [Property.ofSelection, Property.ofSelection, hinner.properties traits mutable type]

theorem forall₂_refl (s : List (Selection P)) : List.Forall₂ (SameProperty schema) s s :=
  List.forall₂_same.mpr fun x _ => .refl x

theorem map_mapPick (f : Pick P → Pick P) (h : List.Forall₂ (SameProperty schema) s t) :
    List.Forall₂ (SameProperty schema) (s.map (Selection.mapPick f))
      (t.map (Selection.mapPick f)) := by
  rw [List.forall₂_map_left_iff, List.forall₂_map_right_iff]
  exact h.imp fun x y hxy => hxy.mapPick f

theorem congruent : Congruent (P := P) (List.Forall₂ (SameProperty schema)) where
  append_left a h := List.rel_append (forall₂_refl a) h
  append_right a h := List.rel_append h (forall₂_refl a)
  relabel pattern item h := map_mapPick _ h
  names h := map_eq_map_of_forall₂ h fun x y hxy => congrArg Pick.name hxy.pick_eq.symm
  filter p h := by
    refine List.rel_filter ?_ h
    intro x y hxy
    have hname : y.name = x.name := congrArg Pick.name hxy.pick_eq
    simp only [hname]

theorem sameProperties (h : List.Forall₂ (SameProperty schema) s t) :
    SameProperties schema s t where
  outputs := by
    refine map_eq_map_of_forall₂ h ?_
    intro x y hxy
    rw [Selection.name, Selection.name, hxy.pick_eq]
  properties traits mutable type := by
    have hall (taken : Property.Taken P) :
        Property.ofSelections schema traits mutable type taken t =
          Property.ofSelections schema traits mutable type taken s := by
      induction h generalizing taken with
      | nil => rfl
      | cons hxy _ ih =>
        rw [Property.ofSelections, Property.ofSelections, hxy.pick_eq, hxy.ofSelection_eq, ih]
    exact hall {}

end SameProperty

end Selection

/-- The macro is spelled out in one body of a declaration of an entity: in its own body, in the body
of a nested type at any depth, or in a body that is flattened into one of these. -/
inductive Item.SpellsOutSomewhere (schema : Schema) (m : Shorthand) (entity : Name)
    (items items' : List (Item P)) : Prop
  | type : Item.SpellsOutType schema m entity items items' →
      SpellsOutSomewhere schema m entity items items'
  | nested : Item.Nested schema (Item.SpellsOutType schema m) entity items items' →
      SpellsOutSomewhere schema m entity items items'

namespace Item.SpellsOutSomewhere

open Selection

variable {m : Shorthand} {items items' : List (Item P)}

theorem matches_ofBodyAt (site : Site) (hpattern : site.pattern = none)
    (h : SpellsOutSomewhere schema m site.entity items items') :
    Matches (SameProperties schema) (ofBodyAt schema site items)
      (ofBodyAt schema site items') := by
  cases h with
  | type htype => exact matches_spellsOutType hpattern htype
  | nested hnested =>
    have hmatches := hnested.matches (S := List.Forall₂ (SameProperty schema))
      (B := SameProperties schema) SameProperty.congruent
      (fun s t lead a h => SameProperty.map_mapPick _ h)
      (fun s t pick target type h => .cons (.nested h) .nil)
      (fun s t h => SameProperty.sameProperties h)
      (fun site items items' hpattern _ htype => matches_spellsOutType hpattern htype)
    have hbodies := Item.matches_ofBodyAt schema site SameProperty.congruent hnested.aside
      hnested.explicitNames fun seen => hmatches _ seen rfl
    exact hbodies.imp fun s t _ h => SameProperty.sameProperties h

theorem aside {entity : Name} (h : SpellsOutSomewhere schema m entity items items') :
    items'.filterMap Item.aside = items.filterMap Item.aside := by
  cases h with
  | type htype =>
    cases htype with
    | own hbody => exact hbody.spellsOut.aside
    | flattened hflat _ => exact hflat.aside
  | nested hnested => exact hnested.aside

end Item.SpellsOutSomewhere

theorem Body.users_eq_of_aside {items items' : List (Item P)}
    (h : items'.filterMap Item.aside = items.filterMap Item.aside) (extent : P) :
    (⟨items', extent⟩ : Body P).users = (⟨items, extent⟩ : Body P).users := by
  have hcommon (items : List (Item P)) : items.filterMap Item.user? =
      (items.filterMap Item.aside).filterMap Item.user? := by
    rw [List.filterMap_filterMap]
    congr 1
    funext item
    cases item <;> rfl
  rw [Body.users_eq, Body.users_eq, hcommon items', h, ← hcommon]

/-! ### Sources -/

/-- The source has the macro spelled out in one body of one declaration. -/
def Source.SpellsOut (schema : Schema) (m : Shorthand) (s s' : Source P) : Prop :=
  ∃ before decl after items', s.declarations = before ++ decl :: after ∧
    s' = { s with declarations :=
      before ++ { decl with body := ⟨items', decl.body.extent⟩ } :: after } ∧
    Item.SpellsOutSomewhere schema m s.entity.val decl.body.items items'

variable {defaults : Defaults} {m : Shorthand}

theorem Dto.ofDeclaration_spelledOut {entity : Name} {shared : List (Located P Modifier)}
    {decl : Declaration P} {items' : List (Item P)}
    (h : Item.SpellsOutSomewhere schema m entity decl.body.items items') :
    Dto.ofDeclaration schema defaults entity shared
        { decl with body := ⟨items', decl.body.extent⟩ } =
      Dto.ofDeclaration schema defaults entity shared decl := by
  have husers : (⟨items', decl.body.extent⟩ : Body P).users = decl.body.users :=
    Body.users_eq_of_aside h.aside decl.body.extent
  let site : Site :=
    { entity, scopes := [⟨entity, decl.name.val⟩], explicit := [], place := .declaration }
  have hbody : Matches (Selection.SameProperties schema)
      (Selection.ofBody schema entity decl.name.val decl.body)
      (Selection.ofBody schema entity decl.name.val ⟨items', decl.body.extent⟩) :=
    h.matches_ofBodyAt site rfl
  simp only [Dto.ofDeclaration, husers]
  generalize Selection.ofBody schema entity decl.name.val decl.body = selected at hbody ⊢
  generalize Selection.ofBody schema entity decl.name.val ⟨items', decl.body.extent⟩ = selected'
    at hbody ⊢
  cases hbody with
  | error fault => rfl
  | ok hsame => simp only [bind, Except.bind, hsame.properties, hsame.outputs]

/-- Only the name of a declaration has to do with the other declarations. -/
theorem Source.checkNames_of_body (seen : List (Located P Name))
    (before after : List (Declaration P)) (decl : Declaration P) (body : Body P) :
    checkNames seen (before ++ { decl with body } :: after) =
      checkNames seen (before ++ decl :: after) := by
  induction before generalizing seen with
  | nil => rfl
  | cons d before ih => rw [List.cons_append, List.cons_append, checkNames, checkNames, ih]

/-- A source compiles alike with another body of a declaration that gives the same type. -/
theorem Source.compile_of_body {s : Source P} {before after : List (Declaration P)}
    {decl : Declaration P} {body : Body P} (hs : s.declarations = before ++ decl :: after)
    (h : Dto.ofDeclaration schema defaults s.entity.val s.modifiers { decl with body } =
      Dto.ofDeclaration schema defaults s.entity.val s.modifiers decl) :
    ({ s with declarations := before ++ { decl with body } :: after } : Source P).compile schema
        defaults = s.compile schema defaults := by
  have hdecl : inDeclaration { decl with body }
        (Dto.ofDeclaration schema defaults s.entity.val s.modifiers { decl with body }) =
      inDeclaration decl (Dto.ofDeclaration schema defaults s.entity.val s.modifiers decl) := by
    rw [h]
    rfl
  simp only [compile, hs, checkNames_of_body, List.mapM_append, List.mapM_cons, hdecl]

theorem Source.compile_eq_of_spellsOut {s s' : Source P} (h : s.SpellsOut schema m s') :
    s'.compile schema defaults = s.compile schema defaults := by
  obtain ⟨before, decl, after, items', hdeclarations, rfl, hspells⟩ := h
  exact compile_of_body hdeclarations (Dto.ofDeclaration_spelledOut hspells)

/-- Faults that differ in positions only have one code and one wording. -/
theorem Fault.code_message_of_move {f : Fault P} {g : Fault Q}
    (h : f.move nowhere = g.move nowhere) : f.code = g.code ∧ f.message = g.message := by
  constructor
  · rw [← Fault.code_move nowhere f, h, Fault.code_move]
  · rw [← Fault.message_move nowhere f, h, Fault.message_move]

/-- Sources that differ in positions only compile to the same types, or are refused with the same
code and the same message. -/
theorem Source.compile_of_bare_eq {s : Source P} {t : Source Q} (h : t.bare = s.bare)
    (schema : Schema) (defaults : Defaults) :
    (∃ types, s.compile schema defaults = .ok types ∧ t.compile schema defaults = .ok types) ∨
      ∃ fault fault', s.compile schema defaults = .error fault ∧
        t.compile schema defaults = .error fault' ∧
        fault.code = fault'.code ∧ fault.message = fault'.message := by
  rcases compile_cases_of_bare_eq h schema defaults with
    ⟨types, ht, hs⟩ | ⟨fault', fault, ht, hs, hmove⟩
  · exact .inl ⟨types, hs, ht⟩
  · exact .inr ⟨fault, fault', hs, ht, Fault.code_message_of_move hmove.symm⟩

/-- **Macros equal the explicit selection they stand for.** Spell a macro out that is used once in a
body, by the items `name`, or `id(name)`, for the attributes that the macro stands for and the body
does not name. The source then compiles to the same types, or is refused with the same code and the
same message, wherever the new parts stand. -/
theorem Source.compile_spelled_out (schema : Schema) (defaults : Defaults) (m : Shorthand)
    {s s' : Source P} (h : s.SpellsOut schema m s') {t : Source Q} (ht : t.bare = s'.bare) :
    (∃ types, s.compile schema defaults = .ok types ∧ t.compile schema defaults = .ok types) ∨
      ∃ fault fault', s.compile schema defaults = .error fault ∧
        t.compile schema defaults = .error fault' ∧
        fault.code = fault'.code ∧ fault.message = fault'.message := by
  rw [← compile_eq_of_spellsOut h]
  exact compile_of_bare_eq ht schema defaults

/-! ### Examples

The view `V` flattens the department of an employee, with a macro for its scalars. -/

namespace Company

/-- The source `export Employee; V ⟨items⟩`. -/
def viewOf (items : List (Item Unit)) : Source Unit :=
  .single ⟨"Employee", ()⟩ [] ⟨⟨"V", ()⟩, [], [], ⟨items, ()⟩⟩

/-- The item `name`. -/
def plainItem (name : Name) : Item Unit :=
  .plain ⟨⟨name, ()⟩, false, none, none⟩

/-- The item `flat(department) as lead ⟨items⟩`. -/
def flatDepartment (lead : Name) (items : List (Item Unit)) : Item Unit :=
  .flatten ⟨"department", ()⟩ (some ⟨lead, ()⟩) items ()

/-- The items `#allScalars`. -/
def scalarsItem : Item Unit :=
  .bundle ⟨"allScalars", ()⟩ none

theorem scalarsItem_spellsOut : Item.SpellsOutBody (SchemaStore.schema registry) .allScalars
    ["id", "name"] "Department" [scalarsItem] [plainItem "id", plainItem "name"] where
  once := by decide
  names_eq := rfl
  noView := fun h => by cases h
  spellsOut := .here rfl

theorem flatDepartment_spellsOut (lead : Name) (after : List (Item Unit)) :
    Item.Flattened (SchemaStore.schema registry)
      (Item.SpellsOutBody (SchemaStore.schema registry) .allScalars ["id", "name"]) "Employee"
      ["department"] (flatDepartment lead [scalarsItem] :: after)
      (flatDepartment lead [plainItem "id", plainItem "name"] :: after) := by
  have hattribute : (SchemaStore.schema registry).attribute? "Employee"
      (⟨"department", ()⟩ : Located Unit Name).val =
        some (.association "department" "Department" false) := rfl
  have htarget : (Attribute.association "department" "Department" false).kind.single? =
      some "Department" := rfl
  unfold flatDepartment
  exact .body hattribute htarget scalarsItem_spellsOut

/-- The department is flattened once: the macro equals the names. -/
theorem department_spelled_out :
    (viewOf [plainItem "id", flatDepartment "a" [scalarsItem]]).SpellsOut
        (SchemaStore.schema registry) .allScalars
        (viewOf [plainItem "id", flatDepartment "a" [plainItem "id", plainItem "name"]]) ∧
      ∃ types, (viewOf [plainItem "id", flatDepartment "a" [scalarsItem]]).compile
          (SchemaStore.schema registry) {} = .ok types ∧
        (viewOf [plainItem "id", flatDepartment "a" [plainItem "id", plainItem "name"]]).compile
          (SchemaStore.schema registry) {} = .ok types := by
  have horigins : (Item.bodyEntries (SchemaStore.schema registry) "Employee"
      [plainItem "id", flatDepartment "a" [scalarsItem]]).map Entry.origin =
        [some ([], "id"), none, none] := rfl
  have hothers : ∀ name ∈ ["id", "name"], ∀ e ∈ Item.bodyEntries (SchemaStore.schema registry)
      "Employee" [plainItem "id", flatDepartment "a" [scalarsItem]],
      e.origin ≠ some (["department"], name) := by
    intro name _ e he horigin
    have hmem := horigin ▸ List.mem_map_of_mem (f := Entry.origin) he
    rw [horigins] at hmem
    simp at hmem
  have hspells : (viewOf [plainItem "id", flatDepartment "a" [scalarsItem]]).SpellsOut
      (SchemaStore.schema registry) .allScalars
      (viewOf [plainItem "id", flatDepartment "a" [plainItem "id", plainItem "name"]]) :=
    ⟨[], _, [], _, rfl, rfl, .type (.flattened (.tail (flatDepartment_spellsOut "a" [])) hothers)⟩
  refine ⟨hspells, ?_⟩
  rcases Source.compile_spelled_out (SchemaStore.schema registry) {} .allScalars hspells
      (t := viewOf [plainItem "id", flatDepartment "a" [plainItem "id", plainItem "name"]]) rfl with
    htypes | ⟨fault, _, hfault, _⟩
  · exact htypes
  · cases hfault

/-- The department is flattened twice, and the second body writes out a name that the first one has
by its macro. That compiles; spelled out, the name is selected twice. -/
theorem spelled_out_is_refused :
    let macroBody := [flatDepartment "a" [scalarsItem], flatDepartment "b" [plainItem "name"]]
    let namesBody := [flatDepartment "a" [plainItem "id", plainItem "name"],
      flatDepartment "b" [plainItem "name"]]
    Item.Flattened (SchemaStore.schema registry)
        (Item.SpellsOutBody (SchemaStore.schema registry) .allScalars ["id", "name"]) "Employee"
        ["department"] macroBody namesBody ∧
      (∃ d, (viewOf macroBody).compile (SchemaStore.schema registry) {} = .ok [d] ∧
        d.properties.map (·.info.name) = ["aId", "aName", "bName"]) ∧
      (viewOf namesBody).compile (SchemaStore.schema registry) {} =
        .error (.within "V" (.selectedTwice ⟨"name", ()⟩ ())) := by
  exact ⟨flatDepartment_spellsOut "a" _, ⟨_, rfl, rfl⟩, rfl⟩

end Company

end Projection
