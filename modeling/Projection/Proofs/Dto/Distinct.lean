import Projection.Proofs.Dto.Names
import Projection.Proofs.Selection.Origins

/-!
# Distinct names at every depth

Names in the output are made from aliases, patterns, prefixes and suffixes, so two items that look
different may put out one name, and it may take two flattened bodies around them before they do. The
duplicates are looked for once, when the selections of a type are bound: `Property.Taken` holds what
the properties before have used up. Each nested type starts anew.

`Source.compile_distinct` says what this achieves in every type at every depth: no two properties
have one name, and no two written items read one attribute in one way. Which items were written is
read off the body of the type, by `Dto.Declared`, and not off the flags of selections.
-/

namespace Projection

variable {P : Type} {schema : Schema} {traits : Traits} {mutable : Bool}

/-! ### Types in a tree of types -/

/-- The type stands in `d` at some depth, or is `d` itself, with these properties. -/
inductive Dto.Holds (d : Dto) : Outline → List Property → Prop
  | top : d.Holds d.outline d.properties
  | inner {T o : Outline} {properties inner : List Property} {info : PropertyInfo} :
      d.Holds T properties → .nested info o inner ∈ properties → d.Holds o inner

/-- The type stands in `d` at some depth and is declared by these items: `items` are those of `d`
itself, and a nested type is declared by the body of the item at the place of its property. -/
inductive Dto.Declared (schema : Schema) (items : List (Item P)) (d : Dto) :
    Outline → List (Item P) → List Property → Prop
  | top : d.Declared schema items d.outline items d.properties
  | inner {T o : Outline} {body innerBody : List (Item P)} {properties inner : List Property}
      {info : PropertyInfo} {e : Entry P} :
      d.Declared schema items T body properties →
      (.nested info o inner, e) ∈ properties.zip (Item.bodyEntries schema T.entity body) →
      e.body = some (o.entity, innerBody) → d.Declared schema items o innerBody inner

/-- The property has the name of the entry and reads the attribute of a written one. -/
def Property.ComesFrom (p : Property) (e : Entry P) : Prop :=
  p.info.name = e.output.name ∧ ∀ origin, e.origin = some origin →
    (p.info.path, p.info.source) = origin

/-- What the properties read that come from written entries: the path and the attribute. -/
def Property.writtenReads (properties : List Property) (entries : List (Entry P)) :
    List (List Name × Name) :=
  (properties.zip entries).filterMap fun (p, e) =>
    e.origin.map fun _ => (p.info.path, p.info.source)

/-! ### What binding refuses -/

/-- A search by value that finds nothing. -/
theorem Located.find?_val_eq_none {α : Type} [BEq α] [LawfulBEq α] {a : α}
    {seen : List (Located P α)} : seen.find? (·.val == a) = none ↔ a ∉ seen.map (·.val) := by
  rw [List.find?_eq_none, List.mem_map]
  constructor
  · rintro h ⟨x, hx, rfl⟩
    exact h x hx (beq_self_eq_true x.val)
  · intro h x hx heq
    exact h ⟨x, hx, eq_of_beq heq⟩

/-- One more name stays distinct from those before. -/
theorem Located.nodup_concat {seen : List (Located P Name)} {name : Located P Name}
    (hseen : (seen.map (·.val)).Nodup) (hnew : name.val ∉ seen.map (·.val)) :
    ((seen ++ [name]).map (·.val)).Nodup := by
  rw [List.map_append, List.map_singleton, ← List.concat_eq_append]
  exact hseen.concat hnew

namespace Property

namespace Taken

variable {taken : Taken P} {pick : Pick P}

theorem checkOutput_eq_ok {type : Name} (h : taken.checkOutput type pick = .ok ()) :
    pick.name ∉ taken.outputs.map (·.val) := by
  unfold checkOutput at h
  split at h
  · cases h
  · rename_i hnone
    exact Located.find?_val_eq_none.mp hnone

theorem nodup_add_outputs {type : Name} (houtputs : (taken.outputs.map (·.val)).Nodup)
    (h : taken.checkOutput type pick = .ok ()) : ((taken.add pick).outputs.map (·.val)).Nodup :=
  Located.nodup_concat houtputs (checkOutput_eq_ok h)

theorem map_val_add_origins (taken : Taken P) (pick : Pick P) :
    (taken.add pick).origins.map (·.val) = taken.origins.map (·.val) ++ pick.origin.toList := by
  rw [add, List.map_append]
  unfold origin? Pick.origin
  split <;> rfl

theorem nodup_add_origins (horigins : (taken.origins.map (·.val)).Nodup)
    (h : taken.checkOrigin pick = .ok ()) : ((taken.add pick).origins.map (·.val)).Nodup := by
  rw [map_val_add_origins]
  unfold checkOrigin origin? at h
  unfold Pick.origin
  split at h
  · cases h
  · rename_i hnone
    split
    · rename_i hexplicit
      rw [if_pos hexplicit, Option.bind_some] at hnone
      rw [Option.toList_some, ← List.concat_eq_append]
      exact horigins.concat (Located.find?_val_eq_none.mp hnone)
    · rw [Option.toList_none, List.append_nil]
      exact horigins

end Taken

/-- The selections of a type that was bound have names that are distinct, also from those taken
before, and so are the attributes that were written out. -/
theorem nodup_of_ofSelections {type : Name} {taken : Taken P} {selections : List (Selection P)}
    {properties : List Property} (houtputs : (taken.outputs.map (·.val)).Nodup)
    (horigins : (taken.origins.map (·.val)).Nodup)
    (h : ofSelections schema traits mutable type taken selections = .ok properties) :
    (taken.outputs.map (·.val) ++ selections.map Selection.name).Nodup ∧
      (taken.origins.map (·.val) ++ selections.filterMap (·.pick.origin)).Nodup := by
  induction selections generalizing taken properties with
  | nil => simpa using ⟨houtputs, horigins⟩
  | cons s selections ih =>
    simp only [ofSelections, bind_eq_ok, pure_eq_ok] at h
    obtain ⟨_, horigin, _, _, _, houtput, rest, hrest, rfl⟩ := h
    obtain ⟨hnames, hreads⟩ := ih (Taken.nodup_add_outputs houtputs houtput)
      (Taken.nodup_add_origins horigins horigin) hrest
    constructor
    · simpa [Taken.add, Selection.name] using hnames
    · rw [Taken.map_val_add_origins, List.append_assoc] at hreads
      rw [List.filterMap_cons]
      cases hpick : s.pick.origin with
      | none => simpa [hpick] using hreads
      | some origin => simpa [hpick] using hreads

/-- Without anything taken before. -/
theorem nodup_of_ofSelections_empty {type : Name} {selections : List (Selection P)}
    {properties : List Property}
    (h : ofSelections schema traits mutable type {} selections = .ok properties) :
    (selections.map Selection.name).Nodup ∧ (selections.filterMap (·.pick.origin)).Nodup := by
  have houtputs : ((({} : Taken P).outputs).map (·.val)).Nodup := List.nodup_nil
  have horigins : ((({} : Taken P).origins).map (·.val)).Nodup := List.nodup_nil
  simpa using nodup_of_ofSelections houtputs horigins h

end Property

/-- The user-defined properties have names that are distinct, also from the outputs before them. -/
theorem UserProperty.nodup_of_ofItems {type : Name} {outputs : List (Located P Name)}
    {items : List (UserItem P)} {users : List UserProperty}
    (houtputs : (outputs.map (·.val)).Nodup)
    (h : UserProperty.ofItems type traits outputs items = .ok users) :
    (outputs.map (·.val) ++ items.map (·.name.val)).Nodup := by
  induction items generalizing outputs users with
  | nil => simpa using houtputs
  | cons item items ih =>
    simp only [UserProperty.ofItems] at h
    split at h
    · cases h
    · rename_i hnone
      simp only [bind_eq_ok, pure_eq_ok] at h
      obtain ⟨_, _, rest, hrest, rfl⟩ := h
      have houtputs := Located.nodup_concat houtputs (Located.find?_val_eq_none.mp hnone)
      simpa using ih houtputs hrest

/-- The names of the declarations are distinct, also from those seen before. -/
theorem Source.nodup_of_checkNames {seen : List (Located P Name)} {decls : List (Declaration P)}
    (hseen : (seen.map (·.val)).Nodup) (h : Source.checkNames seen decls = .ok ()) :
    (seen.map (·.val) ++ decls.map (·.name.val)).Nodup := by
  induction decls generalizing seen with
  | nil => simpa using hseen
  | cons decl decls ih =>
    simp only [Source.checkNames] at h
    split at h
    · cases h
    · rename_i hnone
      have hseen := Located.nodup_concat hseen (Located.find?_val_eq_none.mp hnone)
      simpa using ih hseen h

/-- The types of a source have the names of its declarations, and these are distinct. -/
theorem Source.names_of_compile {s : Source P} {defaults : Defaults} {types : List Dto}
    (h : s.compile schema defaults = .ok types) :
    types.map Dto.name = s.declarations.map (·.name.val) ∧ (types.map Dto.name).Nodup := by
  have hnames : s.declarations.map (·.name.val) = types.map Dto.name := by
    refine map_eq_map_of_forall₂ (Source.arises_of_compile h).2 ?_
    rintro decl d ⟨_, hd⟩
    exact hd.name_eq.symm
  refine ⟨hnames.symm, ?_⟩
  unfold Source.compile at h
  split at h
  · cases h
  · simp only [bind_eq_ok] at h
    obtain ⟨_, hcheck, _⟩ := h
    have hnone : (([] : List (Located P Name)).map (·.val)).Nodup := List.nodup_nil
    rw [← hnames]
    simpa using Source.nodup_of_checkNames hnone hcheck

/-! ### Properties and entries -/

/-- Two lists that go along with a third go along with each other. -/
theorem forall₂_of_common {α β γ : Type} {R : α → β → Prop} {S : α → γ → Prop} {as : List α}
    {bs : List β} {cs : List γ} (hb : List.Forall₂ R as bs) (hc : List.Forall₂ S as cs) :
    List.Forall₂ (fun b c => ∃ a, R a b ∧ S a c) bs cs := by
  induction hb generalizing cs with
  | nil =>
    cases hc
    exact .nil
  | cons hR _ ih =>
    cases hc with
    | cons hS hrest => exact .cons ⟨_, hR, hS⟩ (ih hrest)

namespace Property

theorem info_ofSelection {s : Selection P} {p : Property}
    (h : ofSelection schema traits mutable s = .ok p) :
    ∃ a type, bound schema traits s.pick = .ok a ∧ p.info = infoOf traits s.pick a type := by
  cases s with
  | leaf =>
    obtain ⟨a, type, _, ha, _, rfl⟩ := ofSelection_leaf_eq_ok h
    exact ⟨a, type, ha, rfl⟩
  | nested =>
    obtain ⟨a, _, ha, _, rfl⟩ := ofSelection_nested_eq_ok h
    exact ⟨a, _, ha, rfl⟩

/-- A selection that was written out is bound to the attribute it names. -/
theorem reads_of_origin {s : Selection P} {p : Property}
    (h : ofSelection schema traits mutable s = .ok p) {origin : List Name × Name}
    (horigin : s.pick.origin = some origin) : (p.info.path, p.info.source) = origin := by
  obtain ⟨a, type, ha, hinfo⟩ := info_ofSelection h
  have hname := (Schema.attribute?_eq_some_iff.mp (bound_eq_ok ha).1).2
  unfold Pick.origin at horigin
  split at horigin
  · rw [hinfo, ← Option.some.inj horigin, ← hname]
    rfl
  · cases horigin

theorem comesFrom_of_traces {s : Selection P} {e : Entry P} {p : Property}
    (hs : s.Traces schema e) (hp : ofSelection schema traits mutable s = .ok p) :
    p.ComesFrom e := by
  refine ⟨(name_ofSelection hp).trans (congrArg Output.name hs.output), ?_⟩
  intro origin horigin
  exact reads_of_origin hp (hs.origin.trans horigin)

/-- The properties of written entries read what was written, each in its place. -/
theorem writtenReads_eq {selections : List (Selection P)} {entries : List (Entry P)}
    {properties : List Property}
    (htraces : List.Forall₂ (Selection.Traces schema) selections entries)
    (hof : List.Forall₂ (fun s p => ofSelection schema traits mutable s = .ok p) selections
      properties) :
    writtenReads properties entries = selections.filterMap (·.pick.origin) := by
  induction htraces generalizing properties with
  | nil =>
    cases hof
    rfl
  | @cons s e selections entries hs _ ih =>
    cases hof with
    | @cons _ p _ properties hp hrest =>
      have hread : (e.origin.map fun _ => (p.info.path, p.info.source)) = s.pick.origin := by
        cases horigin : e.origin with
        | none => rw [hs.origin, horigin]; rfl
        | some origin =>
          have horigin := hs.origin.trans horigin
          rw [horigin, Option.map_some, reads_of_origin hp horigin]
      have htail := ih hrest
      simp only [writtenReads, List.zip_cons_cons, List.filterMap_cons] at htail ⊢
      rw [hread, htail]

end Property

/-! ### All depths -/

section Depths

variable {defaults : Defaults} {entity : Name} {shared : List (Located P Modifier)}
  {decl : Declaration P} {selections : List (Selection P)} {d : Dto}

/-- Every type in the tree was bound from selections that follow the entries of its own body. -/
theorem Dto.Arises.declared (hd : Dto.Arises schema defaults entity shared decl selections d)
    {T : Outline} {properties : List Property} (hT : d.Holds T properties) :
    ∃ body selected, d.Declared schema decl.body.items T body properties ∧
      List.Forall₂ (Selection.Traces schema) selected (Item.bodyEntries schema T.entity body) ∧
      Property.ofSelections schema d.outline.traits d.outline.mutable T.name {} selected =
        .ok properties := by
  induction hT with
  | top =>
    obtain ⟨all, hall, rfl⟩ := Selection.expands_of_ofBody hd.selected
    refine ⟨decl.body.items, _, .top, ?_, hd.name_eq ▸ hd.properties⟩
    rw [hd.entity_eq]
    exact Selection.traces_kept hall.traces
  | @inner T o properties inner info _ hmem ih =>
    obtain ⟨body, selected, hdeclared, htraces, hof⟩ := ih
    have hpairs := forall₂_of_common (Property.forall₂_of_ofSelections hof) htraces
    obtain ⟨hlength, hpairs⟩ := List.forall₂_iff_zip.mp hpairs
    obtain ⟨e, he⟩ : ∃ e, (.nested info o inner, e) ∈
        properties.zip (Item.bodyEntries schema T.entity body) := by
      obtain ⟨i, hi, heq⟩ := List.mem_iff_getElem.mp hmem
      exact ⟨(Item.bodyEntries schema T.entity body)[i], List.mem_iff_getElem.mpr
        ⟨i, by rw [List.length_zip]; omega, by rw [List.getElem_zip, heq]⟩⟩
    obtain ⟨s, hs, hse⟩ := hpairs he
    obtain ⟨pick, target, type, picked, rfl, rfl, hinner⟩ := Property.ofSelection_eq_nested hs
    cases hse with
    | nested _ _ hbody hpicked =>
      exact ⟨_, picked, .inner hdeclared he hbody, hpicked, hinner⟩

/-- The names of a declaration are distinct, those of its user-defined properties among them. -/
theorem Dto.Arises.nodup_propertyNames
    (hd : Dto.Arises schema defaults entity shared decl selections d) : d.propertyNames.Nodup := by
  obtain ⟨hnames, _⟩ := Property.nodup_of_ofSelections_empty hd.properties
  have hall := UserProperty.nodup_of_ofItems (by simpa [Function.comp_def] using hnames) hd.users
  rw [hd.propertyNames, ← Selection.map_name_ofBody hd.selected]
  simpa [Function.comp_def] using hall

end Depths

/-- **Names are distinct at every depth.** Take what a source compiles to, with any schema. The
properties of a declared type and its user-defined properties together have distinct names. A type
at any depth is declared by a body: its properties have distinct names, each comes from the entry at
its place in that body, and those that come from a plain item or from `id(..)` read distinct
attributes, where the flattened names on the way count. -/
theorem Source.compile_distinct {s : Source P} {defaults : Defaults} {types : List Dto}
    (hs : s.compile schema defaults = .ok types) :
    List.Forall₂ (fun decl d =>
      d.propertyNames.Nodup ∧
        ∀ T properties, d.Holds T properties →
          (properties.map (·.info.name)).Nodup ∧
          ∃ body, d.Declared schema decl.body.items T body properties ∧
            List.Forall₂ Property.ComesFrom properties
              (Item.bodyEntries schema T.entity body) ∧
            (Property.writtenReads properties
              (Item.bodyEntries schema T.entity body)).Nodup)
      s.declarations types := by
  refine (Source.arises_of_compile hs).2.imp ?_
  rintro decl d ⟨selections, hd⟩
  refine ⟨hd.nodup_propertyNames, ?_⟩
  intro T properties hT
  obtain ⟨body, selected, hdeclared, htraces, hof⟩ := hd.declared hT
  obtain ⟨hnames, hreads⟩ := Property.nodup_of_ofSelections_empty hof
  have hbound := Property.forall₂_of_ofSelections hof
  refine ⟨?_, body, hdeclared, ?_, ?_⟩
  · rw [← map_eq_map_of_forall₂ hbound fun _ _ h => (Property.name_ofSelection h).symm]
    exact hnames
  · refine (forall₂_of_common hbound htraces).imp ?_
    rintro p e ⟨s, hp, hs⟩
    exact Property.comesFrom_of_traces hs hp
  · rw [Property.writtenReads_eq htraces hbound]
    exact hreads

/-! ### An example

The view `Chart` has every scalar of an employee, the name of the manager once flattened and once in
a nested type, and a note of its own. The name of the manager is read twice, but not in one type. -/

namespace Staff

/-- The source `export Employee; Chart ⟨#allScalars, flat(manager) as boss ⟨name⟩,
manager ⟨name, id(manager)⟩, note: String⟩`. -/
def chartSource : Source Unit where
  entity := at_ "Employee"
  modifiers := []
  declarations := [{
    name := at_ "Chart"
    tags := []
    modifiers := []
    body := ⟨[.bundle (at_ "allScalars") none,
      .flatten (at_ "manager") (some (at_ "boss")) [.plain ⟨at_ "name", false, none, none⟩] (),
      .nested ⟨at_ "manager", false, none, none⟩
        [.plain ⟨at_ "name", false, none, none⟩, .idOnly (at_ "manager") none none] (),
      .user ⟨[], at_ "note", at_ ⟨"String", [], false⟩, none⟩], ()⟩ }]

/-- The type of the manager in the view, and its properties. -/
def chartManager : Outline :=
  ⟨"Employee", "TargetOf_manager", {}, false⟩

def chartManagerProperties : List Property :=
  [ownName, .leaf {
    name := "managerId"
    source := "manager"
    newName := none
    path := []
    kind := .association "Employee" false
    type := "Long"
    nullable := true
    nullability := none
    many := false } (.idOnly "Long")]

/-- The view. -/
def chart : Dto where
  outline := ⟨"Employee", "Chart", {}, false⟩
  tags := []
  mutability := .unspecified
  properties := badge.properties ++ [ownName,
    .leaf { managerName.info with name := "bossName" } .value,
    .nested {
      name := "manager"
      source := "manager"
      newName := none
      path := []
      kind := .association "Employee" false
      type := "TargetOf_manager"
      nullable := true
      nullability := none
      many := false } chartManager chartManagerProperties]
  users := [⟨"note", ⟨"String", [], false⟩, false, none, []⟩]

theorem chart_distinct :
    chartSource.compile (SchemaStore.schema registry) {} = .ok [chart] ∧
      chart.propertyNames = ["id", "name", "bossName", "manager", "note"] ∧
      chart.propertyNames.Nodup ∧
      (chartManagerProperties.map (·.info.name)).Nodup ∧
      ∃ body : List (Item Unit),
        List.Forall₂ Property.ComesFrom chartManagerProperties
          (Item.bodyEntries (SchemaStore.schema registry) "Employee" body) ∧
        (Property.writtenReads chartManagerProperties
          (Item.bodyEntries (SchemaStore.schema registry) "Employee" body)).Nodup := by
  have hcompiles : chartSource.compile (SchemaStore.schema registry) {} = .ok [chart] := rfl
  have hchart := (List.forall₂_cons.mp (Source.compile_distinct hcompiles)).1
  have hmanager : chart.Holds chartManager chartManagerProperties :=
    .inner .top (List.mem_of_getElem? (i := 3) rfl)
  obtain ⟨hnames, body, _, hentries, hreads⟩ :=
    hchart.2 chartManager chartManagerProperties hmanager
  exact ⟨hcompiles, rfl, hchart.1, hnames, body, hentries, hreads⟩

end Staff

end Projection
