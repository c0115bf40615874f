import Mathlib.Data.List.Duplicate
import Projection.Proofs.Dto.Binding
import Projection.Proofs.Dto.Shorthand

/-!
# Negatives only filter

An item `-name` takes the property with that name out of the type. It does so after all items of the
body have selected theirs, and before any of them is bound. So it does not matter where in the body
it stands, what else is taken away, or which item put the name out.

* `Selection.ofBody_eq_bodyOf`: the items of a body select what they do without its negatives.
* `Selection.Negated` is how it ends to take names away: with what is left, or with a fault for a
  name that is taken away twice or is not there.
* `Dto.Arises.without`: what is left is bound if all was, and gives the properties that it gave.
* `Source.compile_with_negatives` puts these together for one declaration of a source.
-/

namespace Projection

variable {P Q : Type} {schema : Schema}

/-- The item takes a name away. -/
def Item.isNegative : Item P → Bool
  | .negative _ => true
  | _ => false

/-- The body without the items that take names away. -/
def Body.withoutNegatives (body : Body P) : Body P :=
  { body with items := body.items.filter fun item => !item.isNegative }

/-- The names that a body takes away. -/
def Body.negated (body : Body P) : List Name :=
  (Selection.negatives body.items).map (·.val)

/-- The type without the properties of these names; what the user defines stays. -/
def Dto.without (d : Dto) (names : List Name) : Dto :=
  { d with properties := d.properties.filter fun p => p.info.name ∉ names }

/-! ### What the other items select -/

namespace Selection

/-- Negatives select nothing, and nothing else looks at them. -/
theorem ofItems_filter_isNegative (site : Site) (hplace : site.place ≠ .group)
    (seen : List (Located P Name)) (items : List (Item P)) :
    ofItems schema site seen (items.filter fun item => !item.isNegative) =
      ofItems schema site seen items := by
  induction items generalizing seen with
  | nil => rfl
  | cons item items ih =>
    cases item with
    | negative name =>
      have hnone : ofItems schema site seen (.negative name :: items) =
          ofItems schema site seen items := by
        have hseen : seen ++ macroOf (.negative name) = seen := List.append_nil seen
        have hrenamed : renamed site.pattern (.negative name) ([] : List (Selection P)) = [] :=
          renamed_eq_map _ _ _
        rw [ofItems, ofItem, if_neg hplace, hseen]
        cases ofItems schema site seen items with
        | error fault => rfl
        | ok rest => exact congrArg (fun first => Except.ok (first ++ rest)) hrenamed
      rw [hnone, ← ih]
      rfl
    | _ =>
      rw [List.filter_cons_of_pos rfl, ofItems, ofItems, ih]

theorem explicitNamesAll_filter_isNegative (items : List (Item P)) :
    explicitNamesAll (items.filter fun item => !item.isNegative) = explicitNamesAll items := by
  induction items with
  | nil => rfl
  | cons item items ih =>
    cases item with
    | negative name => exact ih
    | _ => rw [List.filter_cons_of_pos rfl, explicitNamesAll, explicitNamesAll, ih]

theorem negatives_withoutNegatives (body : Body P) :
    negatives body.withoutNegatives.items = [] := by
  refine List.filterMap_eq_nil_iff.mpr ?_
  intro item hitem
  have hother : item.isNegative = false := by
    simpa using (List.mem_filter.mp hitem).2
  cases item with
  | negative name => cases hother
  | _ => rfl

/-- **A body selects what it does without its negatives, less what these take away.** -/
theorem ofBody_eq_bodyOf (entity type : Name) (body : Body P) :
    ofBody schema entity type body =
      bodyOf body.items (ofBody schema entity type body.withoutNegatives) := by
  let site : Site :=
    { entity, scopes := [⟨entity, type⟩], explicit := explicitNamesAll body.items
      place := .declaration }
  have hitems : ofBody schema entity type body.withoutNegatives =
      ofItems schema site [] body.items := by
    rw [ofBody, bodyOf_of_negatives_eq_nil (negatives_withoutNegatives body),
      ← ofItems_filter_isNegative site Place.noConfusion]
    simp only [site, Body.withoutNegatives, explicitNamesAll_filter_isNegative]
  rw [hitems, ofBody]

/-! ### What the negatives take away -/

theorem checkNegatives_of_nodup {seen names : List (Located P Name)}
    (h : (seen.map (·.val) ++ names.map (·.val)).Nodup) :
    checkNegatives seen names = .ok () := by
  induction names generalizing seen with
  | nil => rfl
  | cons name names ih =>
    have hnew : name.val ∉ seen.map (·.val) := by
      intro hmem
      exact List.disjoint_of_nodup_append h hmem List.mem_cons_self
    rw [checkNegatives, Located.find?_val_eq_none.mpr hnew]
    exact ih (by simpa using h)

/-- A name that is taken away twice is found. -/
theorem checkNegatives_of_not_nodup {seen names : List (Located P Name)}
    (hseen : (seen.map (·.val)).Nodup) (h : ¬ (seen.map (·.val) ++ names.map (·.val)).Nodup) :
    ∃ name first, checkNegatives seen names = .error (.duplicateNegative name first) ∧
      List.Duplicate name.val (seen.map (·.val) ++ names.map (·.val)) := by
  induction names generalizing seen with
  | nil => exact absurd (by simpa using hseen) h
  | cons name names ih =>
    unfold checkNegatives
    split
    · rename_i first hfirst
      have hval : first.val = name.val := by simpa using List.find?_some hfirst
      have hmem : name.val ∈ seen.map (·.val) :=
        hval ▸ List.mem_map_of_mem (List.mem_of_find?_eq_some hfirst)
      have htwice : ([name.val] ++ [name.val]).Sublist
          (seen.map (·.val) ++ (name :: names).map (·.val)) :=
        (List.singleton_sublist.mpr hmem).append
          (List.singleton_sublist.mpr List.mem_cons_self)
      exact ⟨name, first.pos, rfl, List.duplicate_iff_sublist.mpr htwice⟩
    · rename_i hnone
      have hseen := Located.nodup_concat hseen (Located.find?_val_eq_none.mp hnone)
      simpa using ih hseen (by simpa using h)

/-- To take a name away leaves all others. -/
theorem mem_map_name_filter {selections : List (Selection P)} {name other : Name}
    (hne : other ≠ name) :
    other ∈ (selections.filter (·.name != name)).map Selection.name ↔
      other ∈ selections.map Selection.name := by
  simp only [List.mem_map, List.mem_filter, bne_iff_ne]
  constructor
  · rintro ⟨s, ⟨hs, _⟩, rfl⟩
    exact ⟨s, hs, rfl⟩
  · rintro ⟨s, hs, rfl⟩
    exact ⟨s, ⟨hs, hne⟩, rfl⟩

/-- Distinct names are taken away if all of them are there. Otherwise one that is not is found. -/
theorem prune_of_nodup {names : List (Located P Name)} (selections : List (Selection P))
    (h : (names.map (·.val)).Nodup) :
    ((∀ name ∈ names.map (·.val), name ∈ selections.map Selection.name) ∧
        ∃ rest, prune names selections = .ok rest) ∨
      ∃ name ∈ names, name.val ∉ selections.map Selection.name ∧
        prune names selections = .error (.idleNegative name) := by
  induction names generalizing selections with
  | nil => exact .inl ⟨by simp, selections, rfl⟩
  | cons name names ih =>
    obtain ⟨hname, hnames⟩ := List.nodup_cons.mp h
    have hfound : selections.any (·.name == name.val) = true ↔
        name.val ∈ selections.map Selection.name := by
      simp [List.mem_map]
    -- The names that follow are others, so this step does not decide about them.
    have hne : ∀ other ∈ names.map (·.val), other ≠ name.val := by
      rintro other hmem rfl
      exact hname hmem
    unfold prune
    split
    · rename_i hany
      rcases ih (selections.filter (·.name != name.val)) hnames with
        ⟨hall, hrest⟩ | ⟨idle, hidle, hmissing, herror⟩
      · refine .inl ⟨?_, hrest⟩
        rw [List.map_cons, List.forall_mem_cons]
        refine ⟨hfound.mp hany, ?_⟩
        intro other hmem
        exact (mem_map_name_filter (hne other hmem)).mp (hall other hmem)
      · refine .inr ⟨idle, List.mem_cons_of_mem name hidle, ?_, herror⟩
        rwa [← mem_map_name_filter (hne idle.val (List.mem_map_of_mem hidle))]
    · rename_i hany
      exact .inr ⟨name, List.mem_cons_self, fun hmem => hany (hfound.mpr hmem), rfl⟩

/-- How a computation ends that takes names away from these outputs: with the result if they can be
taken away, and else with the fault that they cannot. -/
inductive Negated {α : Type} (names : List (Located P Name)) (outputs : List Name) (result : α) :
    Except (Fault P) α → Prop
  | kept : (names.map (·.val)).Nodup → (∀ name ∈ names.map (·.val), name ∈ outputs) →
      Negated names outputs result (.ok result)
  | repeated {name first} : List.Duplicate name.val (names.map (·.val)) →
      Negated names outputs result (.error (.duplicateNegative name first))
  | idle {name} : (names.map (·.val)).Nodup → name.val ∈ names.map (·.val) →
      name.val ∉ outputs → Negated names outputs result (.error (.idleNegative name))

theorem negated_bodyOf (items : List (Item P)) (all : List (Selection P)) :
    Negated (negatives items) (all.map Selection.name)
      (all.filter fun s => s.name ∉ (negatives items).map (·.val)) (bodyOf items (.ok all)) := by
  by_cases hnodup : ((negatives items).map (·.val)).Nodup
  · have hcheck : checkNegatives [] (negatives items) = .ok () := checkNegatives_of_nodup hnodup
    have hprune : bodyOf items (.ok all) = prune (negatives items) all := by
      rw [bodyOf, hcheck]
      rfl
    rw [hprune]
    rcases prune_of_nodup all hnodup with ⟨hall, rest, hrest⟩ | ⟨name, hname, hmissing, herror⟩
    · have hkept : rest = all.filter fun s => s.name ∉ (negatives items).map (·.val) := by
        rw [prune_eq_ok hrest]
        apply List.filter_congr
        intro s _
        rw [Bool.eq_iff_iff]
        simp [List.mem_map]
      rw [hrest, hkept]
      exact .kept hnodup hall
    · rw [herror]
      exact .idle hnodup (List.mem_map_of_mem hname) hmissing
  · have hseen : (([] : List (Located P Name)).map (·.val)).Nodup := List.nodup_nil
    obtain ⟨name, first, herror, htwice⟩ := checkNegatives_of_not_nodup hseen hnodup
    have herror : bodyOf items (.ok all) = .error (.duplicateNegative name first) := by
      rw [bodyOf, herror]
      rfl
    rw [herror]
    exact .repeated htwice

end Selection

/-! ### What is left -/

section Declarations

variable {defaults : Defaults} {entity : Name} {shared : List (Located P Modifier)}
  {decl : Declaration P} {all : List (Selection P)} {d : Dto}

/-- What the user defines is accepted with fewer outputs before it. -/
theorem UserProperty.ofItems_of_subset {type : Name} {traits : Traits}
    {outputs fewer : List (Located P Name)} {items : List (UserItem P)} {users : List UserProperty}
    (hsubset : fewer.map (·.val) ⊆ outputs.map (·.val))
    (h : UserProperty.ofItems type traits outputs items = .ok users) :
    UserProperty.ofItems type traits fewer items = .ok users := by
  induction items generalizing outputs fewer users with
  | nil => exact h
  | cons item items ih =>
    simp only [UserProperty.ofItems] at h ⊢
    split at h
    · cases h
    · rename_i hnone
      have hnew : item.name.val ∉ fewer.map (·.val) :=
        fun hmem => Located.find?_val_eq_none.mp hnone (hsubset hmem)
      rw [Located.find?_val_eq_none.mpr hnew]
      simp only [bind_eq_ok, pure_eq_ok] at h ⊢
      obtain ⟨user, huser, rest, hrest, rfl⟩ := h
      refine ⟨user, huser, rest, ih ?_ hrest, rfl⟩
      rw [List.map_append, List.map_append]
      exact List.append_subset.mpr ⟨List.Subset.trans hsubset (List.subset_append_left _ _),
        List.subset_append_right _ _⟩

theorem Body.users_withoutNegatives (body : Body P) : body.withoutNegatives.users = body.users := by
  rw [Body.users_eq, Body.users_eq, Body.withoutNegatives, List.filterMap_filter]
  congr 1
  funext item
  cases item <;> rfl

/-- **What a body keeps is bound as it was**, and what the user defines stays. -/
theorem Dto.Arises.without
    (h : Dto.Arises schema defaults entity shared { decl with body := decl.body.withoutNegatives }
      all d) (names : List Name)
    (hselected : Selection.ofBody schema entity decl.name.val decl.body =
      .ok (all.filter fun s => s.name ∉ names)) :
    Dto.ofDeclaration schema defaults entity shared decl = .ok (d.without names) := by
  -- Each selection is bound on its own, and fewer of them clash less.
  obtain ⟨hof, hnames, horigins⟩ := Property.ofSelections_eq_ok_iff.mp h.properties
  have hkept : (all.filter fun s => s.name ∉ names).Sublist all := List.filter_sublist
  refine Dto.Arises.ofDeclaration
    ⟨hselected, h.entity_eq, h.name_eq, h.traits, h.tags, h.mutability, h.mutable_eq, ?_, ?_⟩
  · refine Property.ofSelections_eq_ok_iff.mpr
      ⟨?_, hnames.sublist (hkept.map _), horigins.sublist (hkept.filterMap _)⟩
    refine List.rel_filter ?_ hof
    intro s p hp
    have hname : p.info.name = s.name := Property.name_ofSelection hp
    simp only [hname]
  · have husers := h.users
    rw [Body.users_withoutNegatives] at husers
    refine UserProperty.ofItems_of_subset ?_ husers
    exact ((hkept.map _).map _).subset

/-- **The negatives of a declaration decide what becomes of the type without them.** -/
theorem Dto.Arises.negated
    (h : Dto.Arises schema defaults entity shared { decl with body := decl.body.withoutNegatives }
      all d) :
    Selection.Negated (Selection.negatives decl.body.items) (d.properties.map (·.info.name))
      (d.without decl.body.negated) (Dto.ofDeclaration schema defaults entity shared decl) := by
  have hbody : Selection.ofBody schema entity decl.name.val decl.body =
      Selection.bodyOf decl.body.items (.ok all) := by
    rw [Selection.ofBody_eq_bodyOf, h.selected]
  have hnegated := Selection.negated_bodyOf decl.body.items all
  rw [← hbody, h.map_name] at hnegated
  -- A fault of the body is the first that a declaration can have.
  have hfault {fault : Fault P}
      (hselected : Selection.ofBody schema entity decl.name.val decl.body = .error fault) :
      Dto.ofDeclaration schema defaults entity shared decl = .error fault := by
    rw [Dto.ofDeclaration, hselected]
    rfl
  generalize hselected : Selection.ofBody schema entity decl.name.val decl.body = body at hnegated
  cases hnegated with
  | kept hnodup hall =>
    rw [h.without _ hselected]
    exact .kept hnodup hall
  | repeated htwice =>
    rw [hfault hselected]
    exact .repeated htwice
  | idle hnodup hname hmissing =>
    rw [hfault hselected]
    exact .idle hnodup hname hmissing

end Declarations

/-! ### Sources -/

/-- If a source compiles with some other body of a declaration, the declaration alone decides
whether it compiles with its own body, and only the type of that declaration changes. -/
theorem Source.compile_of_other_body {defaults : Defaults} {s : Source P}
    {before after : List (Declaration P)} {decl : Declaration P} {body : Body P}
    {earlier later : List Dto} {T : Dto} (hs : s.declarations = before ++ decl :: after)
    (hlength : earlier.length = before.length)
    (h : ({ s with declarations := before ++ { decl with body } :: after } : Source P).compile
      schema defaults = .ok (earlier ++ T :: later)) :
    Dto.ofDeclaration schema defaults s.entity.val s.modifiers { decl with body } = .ok T ∧
      s.compile schema defaults =
        (inDeclaration decl (Dto.ofDeclaration schema defaults s.entity.val s.modifiers decl)).map
          fun d => earlier ++ d :: later := by
  simp only [compile, checkNames_of_body, List.mapM_append, List.mapM_cons] at h ⊢
  split at h
  · cases h
  · rename_i hknown
    simp only [bind_eq_ok, pure_eq_ok] at h
    obtain ⟨_, hcheck, types, htypes, _, ⟨d, hd, rest, hrest, rfl⟩, heq⟩ := h
    -- There are as many types before as declarations, so `T` is the type of `decl`.
    have htypesLength : types.length = earlier.length :=
      (forall₂_of_mapM_eq_ok htypes).length_eq.symm.trans hlength.symm
    obtain ⟨rfl, htail⟩ := List.append_inj heq htypesLength
    obtain ⟨rfl, rfl⟩ := List.cons.inj htail
    refine ⟨inDeclaration_eq_ok hd, ?_⟩
    rw [if_neg hknown, hs, hcheck, List.mapM_append, List.mapM_cons, htypes, hrest]
    cases inDeclaration decl
      (Dto.ofDeclaration schema defaults s.entity.val s.modifiers decl) <;> rfl

/-- **Negatives are a filter on names in the output, wherever they stand.** Let a source compile
without the negatives of a declaration `decl`, to the type `T` in its place. With them it compiles
exactly if the names that they take away are distinct and each is the name of a property of `T`, and
then just these properties are missing. Otherwise it is refused: with `E206` for a name that is
taken away twice, or else with `E203` for one that `T` does not have. -/
theorem Source.compile_with_negatives (schema : Schema) (defaults : Defaults) {s : Source P}
    {before after : List (Declaration P)} {decl : Declaration P}
    (hs : s.declarations = before ++ decl :: after) {t : Source Q}
    (ht : t.bare = ({ s with declarations :=
      before ++ { decl with body := decl.body.withoutNegatives } :: after } : Source P).bare)
    {earlier later : List Dto} {T : Dto} (hlength : earlier.length = before.length)
    (hT : t.compile schema defaults = .ok (earlier ++ T :: later)) :
    (∀ types, s.compile schema defaults = .ok types ↔
      decl.body.negated.Nodup ∧
        (∀ name ∈ decl.body.negated, name ∈ T.properties.map (·.info.name)) ∧
        types = earlier ++ T.without decl.body.negated :: later) ∧
      (¬ decl.body.negated.Nodup →
        ∃ fault name first, s.compile schema defaults = .error fault ∧ fault.code.text = "E206" ∧
          fault = .within decl.name.val (.duplicateNegative name first) ∧
          List.Duplicate name.val decl.body.negated) ∧
      (decl.body.negated.Nodup →
        ¬ (∀ name ∈ decl.body.negated, name ∈ T.properties.map (·.info.name)) →
        ∃ fault name, s.compile schema defaults = .error fault ∧ fault.code.text = "E203" ∧
          fault = .within decl.name.val (.idleNegative name) ∧
          name.val ∈ decl.body.negated ∧ name.val ∉ T.properties.map (·.info.name)) := by
  have hstripped := hT
  rw [← compile_bare_eq_ok, ht, compile_bare_eq_ok] at hstripped
  obtain ⟨hdecl, hcompile⟩ := compile_of_other_body hs hlength hstripped
  obtain ⟨all, harises⟩ := Dto.arises_of_ofDeclaration hdecl
  have hnegated := harises.negated
  -- the other declarations compile as before, so this one decides
  generalize Dto.ofDeclaration schema defaults s.entity.val s.modifiers decl = result at *
  cases hnegated with
  | kept hnodup hall =>
    have hcompile : s.compile schema defaults =
        .ok (earlier ++ T.without decl.body.negated :: later) := hcompile
    refine ⟨fun types => ?_, fun hnot => absurd hnodup hnot, fun _ hnot => absurd hall hnot⟩
    rw [hcompile]
    constructor
    · intro htypes
      exact ⟨hnodup, hall, (Except.ok.inj htypes).symm⟩
    · rintro ⟨_, _, rfl⟩
      rfl
  | @repeated name first htwice =>
    have hnot : ¬ decl.body.negated.Nodup := htwice.not_nodup
    refine ⟨fun types => ?_, fun _ => ⟨_, name, first, hcompile, rfl, rfl, htwice⟩,
      fun hnodup => absurd hnodup hnot⟩
    rw [hcompile]
    exact ⟨fun htypes => (nomatch htypes), fun h => absurd h.1 hnot⟩
  | @idle name hnodup hname hmissing =>
    refine ⟨fun types => ?_, fun hnot => absurd hnodup hnot,
      fun _ _ => ⟨_, name, hcompile, rfl, rfl, hname, hmissing⟩⟩
    rw [hcompile]
    exact ⟨fun htypes => (nomatch htypes), fun h => absurd (h.2.1 _ hname) hmissing⟩

/-! ### An example

The view `Memo` of an employee after another view, with a note that the user defines. -/

namespace Staff

/-- The declaration `Plain ⟨id⟩`. -/
def plainView : Declaration Unit :=
  ⟨at_ "Plain", [], [], ⟨[.plain ⟨at_ "id", false, none, none⟩], ()⟩⟩

/-- The source `export Employee; Plain ⟨id⟩ Memo ⟨items⟩`. -/
def memoSource (items : List (Item Unit)) : Source Unit where
  entity := at_ "Employee"
  modifiers := []
  declarations := [plainView, ⟨at_ "Memo", [], [], ⟨items, ()⟩⟩]

/-- The items `-first #allScalars id(manager) as boss -second note: String?`. -/
def memoItems (first second : Name) : List (Item Unit) :=
  [.negative (at_ first), .bundle (at_ "allScalars") none,
    .idOnly (at_ "manager") none (some (at_ "boss")), .negative (at_ second),
    .user ⟨[], at_ "note", at_ ⟨"String", [], true⟩, none⟩]

theorem memo_is_filtered :
    ∃ plain memo,
      (memoSource [.bundle (at_ "allScalars") none,
        .idOnly (at_ "manager") none (some (at_ "boss")),
        .user ⟨[], at_ "note", at_ ⟨"String", [], true⟩, none⟩]).compile
          (SchemaStore.schema registry) {} = .ok [plain, memo] ∧
      memo.propertyNames = ["id", "name", "boss", "note"] ∧
      (memoSource (memoItems "boss" "name")).compile (SchemaStore.schema registry) {} =
        .ok [plain, memo.without ["boss", "name"]] ∧
      (memo.without ["boss", "name"]).propertyNames = ["id", "note"] ∧
      (∃ fault, (memoSource (memoItems "name" "name")).compile (SchemaStore.schema registry) {} =
        .error fault ∧ fault.code.text = "E206") ∧
      ∃ fault, (memoSource (memoItems "name" "manager")).compile (SchemaStore.schema registry) {} =
        .error fault ∧ fault.code.text = "E203" := by
  have hdeclarations (items : List (Item Unit)) : (memoSource items).declarations =
      [plainView] ++ ⟨at_ "Memo", [], [], ⟨items, ()⟩⟩ :: [] := rfl
  have hlength (plain : Dto) : [plain].length = [plainView].length := rfl
  have hfilter (first second : Name) :=
    Source.compile_with_negatives (SchemaStore.schema registry) {}
      (hdeclarations (memoItems first second))
      (t := memoSource ((memoItems first second).filter fun item => !item.isNegative)) rfl
      (hlength _) rfl
  obtain ⟨hcompiles, _, _⟩ := hfilter "boss" "name"
  obtain ⟨_, hrepeated, _⟩ := hfilter "name" "name"
  obtain ⟨_, _, hidle⟩ := hfilter "name" "manager"
  refine ⟨_, _, rfl, by decide, (hcompiles _).mpr ⟨by decide, by decide, rfl⟩, by decide, ?_, ?_⟩
  · obtain ⟨fault, _, _, hfault, hcode, _⟩ := hrepeated (by decide)
    exact ⟨fault, hfault, hcode⟩
  · obtain ⟨fault, _, hfault, hcode, _⟩ := hidle (by decide) (by decide)
    exact ⟨fault, hfault, hcode⟩

end Staff

end Projection
