import Projection.Proofs.Dto.Origin

/-!
# What the properties of a DTO type read

A property of a compiled type names its attribute indirectly: by the entity of the type around it, a
path of flattened names, and the name of the source. `PropertyInfo.ReadsFrom` resolves these against
the schema, and there is at most one way to do so (`ReadsFrom.unique`). `Property.AgreesWith` says
what the attribute has to be for the target that the property has.

The main result is `Source.compile_agrees_with_schema`: in what a source compiles to, every property
at every depth reads an attribute that the schema declares, and agrees with it.
-/

namespace Projection

variable {P : Type} {schema : Schema} {traits : Traits} {mutable : Bool}

/-! ### Reading and agreement -/

/-- The path of the property is a route from `start` through `via` to `entity`, which declares its
source as `m`. -/
structure PropertyInfo.ReadsFrom (schema : Schema) (start : Name) (info : PropertyInfo)
    (via : List Attribute) (entity : Name) (m : Attribute) : Prop where
  route : schema.Route start via entity
  path : info.path = via.map (·.name)
  declares : schema.Declares entity m
  source : info.source = m.name

/-- The target of the property is one that the attribute has. A recursive property is of the
innermost of the enclosing types with the entity behind its association. -/
def Property.AgreesWith (schema : Schema) (enclosing : List Outline) (m : Attribute) :
    Property → Prop
  | .leaf info .value => m.kind.isAssociation = false ∧ info.type = m.type
  | .leaf _ (.entity name) => ∃ many, m.kind = .association name many
  | .leaf _ (.idOnly idType) => ∃ target many id, m.kind = .association target many ∧
      schema.Declares target id ∧ id.kind = .id ∧ id.type = idType
  | .leaf _ (.recursive type) => ∃ target many o, m.kind = .association target many ∧
      enclosing.find? (·.entity == target) = some o ∧ o.name = type
  | .nested _ o _ => m.kind.target? = some o.entity

theorem Schema.Declares.eq_of_name_eq {entity : Name} {a b : Attribute}
    (ha : schema.Declares entity a) (hb : schema.Declares entity b) (h : a.name = b.name) :
    a = b := by
  have hfound := ha.attribute?
  rw [h, hb.attribute?] at hfound
  exact (Option.some.inj hfound).symm

theorem Schema.Route.unique {start entity entity' : Name} {via via' : List Attribute}
    (h : schema.Route start via entity) (h' : schema.Route start via' entity')
    (hnames : via.map (·.name) = via'.map (·.name)) : via = via' ∧ entity = entity' := by
  induction h generalizing via' with
  | here =>
    cases h' with
    | here => exact ⟨rfl, rfl⟩
    | step => cases hnames
  | step hdecl htarget _ ih =>
    cases h' with
    | here => cases hnames
    | step hdecl' htarget' hroute' =>
      obtain ⟨hname, hrest⟩ := List.cons.inj hnames
      obtain rfl := hdecl.eq_of_name_eq hdecl' hname
      obtain rfl := Option.some.inj (htarget.symm.trans htarget')
      obtain ⟨rfl, rfl⟩ := ih hroute' hrest
      exact ⟨rfl, rfl⟩

/-- A property reads one attribute, in one way. -/
theorem PropertyInfo.ReadsFrom.unique {start entity entity' : Name} {info : PropertyInfo}
    {via via' : List Attribute} {m m' : Attribute} (h : info.ReadsFrom schema start via entity m)
    (h' : info.ReadsFrom schema start via' entity' m') :
    via = via' ∧ entity = entity' ∧ m = m' := by
  obtain ⟨rfl, rfl⟩ := h.route.unique h'.route (h.path.symm.trans h'.path)
  exact ⟨rfl, rfl, h.declares.eq_of_name_eq h'.declares (h.source.symm.trans h'.source)⟩

/-! ### One selection -/

theorem readsFrom_infoOf {start : Name} {pick : Pick P} {via : List Attribute} {a : Attribute}
    {type : String} (hvia : pick.Follows schema start via) (ha : pick.Reads schema a) :
    (Property.infoOf traits pick a type).ReadsFrom schema start via pick.entity a :=
  ⟨hvia.route, hvia.path, (Schema.attribute?_eq_some_iff.mp ha).1, rfl⟩

theorem find?_scope {enclosing : List Outline} {target : Name} {scope : Scope}
    (h : (enclosing.map Outline.scope).find? (·.entity == target) = some scope) :
    ∃ o, enclosing.find? (·.entity == target) = some o ∧ o.name = scope.type := by
  rw [List.find?_map] at h
  obtain ⟨o, ho, rfl⟩ := Option.map_eq_some_iff.mp h
  exact ⟨o, ho, rfl⟩

theorem agreesWith_of_ofForm {enclosing : List Outline} {pick : Pick P} {a : Attribute}
    {form : Form} {type : String} {target : Target} {info : PropertyInfo}
    (ha : pick.Reads schema a) (hfits : form.Fits schema (enclosing.map Outline.scope) pick)
    (h : Property.ofForm schema pick a form = .ok (type, target)) (htype : info.type = type) :
    (Property.leaf info target).AgreesWith schema enclosing a := by
  cases form with
  | value =>
    unfold Property.ofForm at h
    cases hk : a.kind with
    | association entity many =>
      simp only [hk] at h
      cases h
      exact ⟨many, hk⟩
    | _ =>
      simp only [hk] at h
      cases h
      exact ⟨by rw [hk]; rfl, htype⟩
  | idOnly =>
    obtain ⟨b, hb, hassoc⟩ := hfits
    obtain rfl := Option.some.inj (ha.symm.trans hb)
    simp only [Property.ofForm, bind_eq_ok, pure_eq_ok] at h
    obtain ⟨idType, hid, heq⟩ := h
    cases heq
    unfold Property.idType at hid
    split at hid
    · rename_i id hfound
      cases hid
      obtain ⟨e, he, hide⟩ := Option.bind_eq_some_iff.mp hfound
      obtain ⟨entity, htarget, hentity⟩ := Option.bind_eq_some_iff.mp he
      cases hk : a.kind with
      | association goal many =>
        rw [hk] at htarget
        cases htarget
        refine ⟨entity, many, id, hk, ⟨e, hentity, List.mem_of_find?_eq_some hide⟩, ?_, rfl⟩
        simpa using List.find?_some hide
      | _ => rw [hk] at hassoc; cases hassoc
    · cases hid
  | recursive name =>
    obtain ⟨b, goal, many, scope, hb, hk, hscope, hname⟩ := hfits
    obtain rfl := Option.some.inj (ha.symm.trans hb)
    cases h
    obtain ⟨o, ho, honame⟩ := find?_scope hscope
    exact ⟨goal, many, o, hk, ho, honame.trans hname⟩

/-- What binding makes of a grounded selection: it follows the route of the selection, and the
target agrees with the attribute at its end. -/
theorem Selection.Grounded.bind {start : Name} {enclosing : List Outline} {s : Selection P}
    {p : Property} (hs : s.Grounded schema start (enclosing.map Outline.scope))
    (hp : Property.ofSelection schema traits mutable s = .ok p) :
    ∃ via a type, s.pick.Follows schema start via ∧
      Property.bound schema traits s.pick = .ok a ∧
      p.info = Property.infoOf traits s.pick a type ∧ p.AgreesWith schema enclosing a := by
  cases hs with
  | leaf via hvia hfits =>
    obtain ⟨a, type, target, ha, hform, rfl⟩ := Property.ofSelection_leaf_eq_ok hp
    exact ⟨via, a, type, hvia, ha, rfl,
      agreesWith_of_ofForm (Property.bound_eq_ok ha).1 hfits hform rfl⟩
  | nested via hvia hreads htarget _ _ =>
    obtain ⟨a, properties, ha, _, rfl⟩ := Property.ofSelection_nested_eq_ok hp
    obtain rfl := Option.some.inj (hreads.symm.trans (Property.bound_eq_ok ha).1)
    exact ⟨via, _, _, hvia, ha, rfl, htarget⟩

/-! ### What may be selected -/

theorem includeDeleted_of_checkKind {pick : Pick P} {a : Attribute}
    (h : Property.checkKind schema traits pick a = .ok ()) (hk : a.kind = .deletedMarker) :
    traits.includeDeleted = true := by
  simp only [Property.checkKind, hk] at h
  split at h
  · assumption
  · cases h

theorem declares_of_checkKind {pick : Pick P} {a : Attribute} {dependencies : List Name}
    (h : Property.checkKind schema traits pick a = .ok ())
    (hk : a.kind = .computed dependencies) {name : Name} (hname : name ∈ dependencies) :
    ∃ b, schema.Declares pick.entity b ∧ b.name = name := by
  simp only [Property.checkKind, hk] at h
  split at h
  · cases h
  · rename_i hnone
    have hsome := List.find?_eq_none.mp hnone name hname
    obtain ⟨b, hb⟩ := Option.ne_none_iff_exists'.mp (by simpa using hsome)
    exact ⟨b, Schema.attribute?_eq_some_iff.mp hb⟩

theorem Kind.isMany_iff {kind : Kind} :
    kind.isMany = true ↔ ∃ target, kind = .association target true := by
  cases kind <;> simp [Kind.isMany]

/-! ### All properties -/

section All

variable {defaults : Defaults} {entity : Name} {shared : List (Located P Modifier)}
  {decl : Declaration P} {selections : List (Selection P)} {d : Dto}

/-- What a declaration compiles to agrees with the schema, whatever the schema is. -/
theorem Dto.Arises.agrees (hd : Dto.Arises schema defaults entity shared decl selections d)
    {T : Outline} {outer : List Outline} {p : Property} (hp : d.Encloses T outer p) :
    ∃ via owner m, p.info.ReadsFrom schema T.entity via owner m ∧ p.info.kind = m.kind ∧
      (p.info.many = true ↔ ∃ target, m.kind = .association target true) ∧
      p.AgreesWith schema (T :: outer) m ∧
      (m.kind = .deletedMarker → T.traits.includeDeleted = true) ∧
      ∀ dependencies, m.kind = .computed dependencies →
        ∀ name ∈ dependencies, ∃ b, schema.Declares owner b ∧ b.name = name := by
  obtain ⟨htraits, _, s, hs, hof⟩ := hd.origin hp
  obtain ⟨via, m, type, hvia, hbound, hinfo, hagrees⟩ := hs.bind hof
  obtain ⟨hreads, hkind, _⟩ := Property.bound_eq_ok hbound
  refine ⟨via, s.pick.entity, m, ?_, ?_, ?_, hagrees, ?_, ?_⟩
  · rw [hinfo]
    exact readsFrom_infoOf hvia hreads
  · rw [hinfo]
    rfl
  · rw [hinfo]
    exact Kind.isMany_iff
  · intro hdeleted
    rw [htraits]
    exact includeDeleted_of_checkKind hkind hdeleted
  · intro dependencies hcomputed name hname
    exact declares_of_checkKind hkind hcomputed hname

end All

/-- **Compilation is sound against the schema.** Take what a source compiles to with a finalized
registry, a type `T` in it at any depth, and a property of `T`. The path of the property leads from
the entity of `T`, through to-one associations and embedded values, to an entity that declares its
source; its kind and multiplicity are those of the declared attribute `m`, and its target agrees
with `m`. The logically-deleted marker is only there if the traits of `T` include it, and a
computed attribute only if the entity declares all it depends on. `T` itself is of a registered
entity. -/
theorem Source.compile_agrees_with_schema {r r' : Registry} (hr : r.finalize = (.ok (), r'))
    {s : Source P} {defaults : Defaults} {types : List Dto}
    (hs : s.compile (SchemaStore.schema r') defaults = .ok types) {d : Dto} (hd : d ∈ types)
    {T : Outline} {outer : List Outline} {p : Property} (hp : d.Encloses T outer p) :
    (r'.lookup T.entity).isSome ∧
      ∃ via owner m, p.info.ReadsFrom (SchemaStore.schema r') T.entity via owner m ∧
        p.info.kind = m.kind ∧
        (p.info.many = true ↔ ∃ target, m.kind = .association target true) ∧
        p.AgreesWith (SchemaStore.schema r') (T :: outer) m ∧
        (m.kind = .deletedMarker → T.traits.includeDeleted = true) ∧
        ∀ dependencies, m.kind = .computed dependencies →
          ∀ name ∈ dependencies, ∃ b, (SchemaStore.schema r').Declares owner b ∧ b.name = name := by
  obtain ⟨hknown, hall⟩ := Source.arises_of_compile hs
  obtain ⟨decl, _, selections, harises⟩ := exists_mem_of_forall₂ hall hd
  refine ⟨?_, harises.agrees hp⟩
  cases hp with
  | top =>
    rw [harises.entity_eq]
    exact hknown
  | inner houter _ =>
    -- `T` belongs to a property whose attribute has the entity of `T` as its target.
    obtain ⟨_, _, m, hreads, _, _, htarget, _⟩ := harises.agrees houter
    exact Registry.lookup_target hr hreads.declares htarget

/-! ### An example

Employees have a name and perhaps a manager. The view `Card` has the name of an employee and, with
the manager flattened, the name of the manager. -/

namespace Staff

/-- A part of a source whose position does not matter. -/
def at_ {α : Type} (a : α) : Located Unit α :=
  ⟨a, ()⟩

def employee : Entity where
  name := "Employee"
  marker := .entity
  attributes := [.id "id" "Long", .scalar "name" "String",
    { Attribute.association "manager" "Employee" false with nullable := true }]
  distinct := by decide

def registry : Registry where
  entities := [employee]
  graph := some (.ofEntities [employee])

/-- The source `export Employee; Card ⟨name, flat(manager) ⟨name⟩⟩`. -/
def source : Source Unit where
  entity := at_ "Employee"
  modifiers := []
  declarations := [{
    name := at_ "Card"
    tags := []
    modifiers := []
    body := ⟨[.plain ⟨at_ "name", false, none, none⟩,
      .flatten (at_ "manager") none [.plain ⟨at_ "name", false, none, none⟩] ()], ()⟩ }]

/-- The name of the manager, in the view. -/
def managerName : Property :=
  .leaf {
    name := "managerName"
    source := "name"
    newName := none
    path := ["manager"]
    kind := .scalar none
    type := "String"
    nullable := true
    nullability := none
    many := false } .value

/-- The name of the employee, in the view. -/
def ownName : Property :=
  .leaf {
    name := "name"
    source := "name"
    newName := none
    path := []
    kind := .scalar none
    type := "String"
    nullable := false
    nullability := none
    many := false } .value

/-- The view. -/
def card : Dto where
  outline := ⟨"Employee", "Card", {}, false⟩
  tags := []
  mutability := .unspecified
  properties := [ownName, managerName]
  users := []

theorem source_compiles : source.compile (SchemaStore.schema registry) {} = .ok [card] := by
  rfl

theorem managerName_agrees :
    ∃ via owner m,
      managerName.info.ReadsFrom (SchemaStore.schema registry) "Employee" via owner m ∧
      managerName.info.kind = m.kind ∧
      managerName.AgreesWith (SchemaStore.schema registry) [card.outline] m := by
  have hfinal : Registry.finalize ⟨[employee], {}, none⟩ = (.ok (), registry) := rfl
  obtain ⟨_, via, owner, m, hreads, hkind, _, hagrees, _⟩ :=
    Source.compile_agrees_with_schema hfinal source_compiles (List.mem_singleton.mpr rfl)
      (Dto.Encloses.top (d := card) (p := managerName) (by simp [card]))
  exact ⟨via, owner, m, hreads, hkind, hagrees⟩

end Staff

end Projection
