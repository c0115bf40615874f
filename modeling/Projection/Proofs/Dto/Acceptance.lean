import Mathlib.Data.Prod.Basic
import Projection.Proofs.Dto.Binding
import Projection.Proofs.Dto.Nesting
import Projection.Proofs.Modifier.Resolution

/-!
# Which plain selections are accepted

A body has only plain items `name`, `name?`, `name!` and `name as alias`. One loop goes through the
modifiers and one through the items, which checks for each item what it selects between two checks
for what the items before it have used up. `Entity.Offers` lists what all checks come to, without
their order. A source with such a declaration compiles exactly if these conditions hold
(`Source.compile_plain_items`), and then it has one property for each item.
-/

namespace Projection

variable {P : Type} {schema : Schema} {traits : Traits} {mutable : Bool}

/-- The name of a plain selection in the output. -/
def Selected.output (head : Selected P) : Name :=
  (head.newName.map (·.val)).getD head.name.val

/-- The entity has what plain items select, and a type with these modifiers may select it. -/
structure Entity.Offers (e : Entity) (shared own : List Modifier) (heads : List (Selected P)) :
    Prop where
  known : ∀ head ∈ heads, ∃ a ∈ e.attributes, a.name = head.name.val
  sources : (heads.map (·.name.val)).Nodup
  outputs : (heads.map (·.output)).Nodup
  deleted : ∀ head ∈ heads, ∀ a ∈ e.attributes, a.name = head.name.val →
    a.kind = .deletedMarker → .deleted ∈ shared ∨ .deleted ∈ own
  computed : ∀ head ∈ heads, ∀ a ∈ e.attributes, a.name = head.name.val →
    ∀ dependencies, a.kind = .computed dependencies →
      ∀ dependency ∈ dependencies, ∃ b ∈ e.attributes, b.name = dependency
  mark : ∀ head ∈ heads, head.nullability.map (·.val) = some .nonNull → .input ∈ own
  modifiers : Modifier.Permitted shared own

/-! ### One item -/

namespace Property

variable {pick : Pick P} {a : Attribute}

theorem checkKind_eq_ok_iff :
    checkKind schema traits pick a = .ok () ↔
      (a.kind = .deletedMarker → traits.includeDeleted = true) ∧
        ∀ dependencies, a.kind = .computed dependencies → ∀ dependency ∈ dependencies,
          ∃ b, schema.Declares pick.entity b ∧ b.name = dependency := by
  constructor
  · intro h
    exact ⟨includeDeleted_of_checkKind h, fun _ hk _ hd => declares_of_checkKind h hk hd⟩
  · rintro ⟨hdeleted, hcomputed⟩
    unfold checkKind
    split
    · rename_i hk
      rw [if_pos (hdeleted hk)]
    · rename_i dependencies hk
      have hnone :
          dependencies.find? (fun d => (schema.attribute? pick.entity d).isNone) = none := by
        refine List.find?_eq_none.mpr ?_
        intro dependency hmem
        obtain ⟨b, hb⟩ := hcomputed dependencies hk dependency hmem
        rw [Schema.attribute?_eq_some_iff.mpr hb]
        simp
      rw [hnone]
    · rfl

theorem checkMark_eq_ok_iff {nullability : Option (Located P Nullability)} :
    checkMark traits nullability = .ok () ↔
      (nullability.map (·.val) = some .nonNull → traits.isInput = true) := by
  cases nullability with
  | none => simp [checkMark]
  | some mark =>
    obtain ⟨mark, pos⟩ := mark
    cases mark with
    | nullable => simp [checkMark]
    | nonNull => simp [checkMark]

theorem bound_eq_ok_iff :
    bound schema traits pick = .ok a ↔
      schema.attribute? pick.entity pick.source.val = some a ∧
        checkKind schema traits pick a = .ok () ∧ checkMark traits pick.nullability = .ok () := by
  constructor
  · exact bound_eq_ok
  · rintro ⟨hreads, hkind, hmark⟩
    simp only [bound, attributeOf, hreads, bind_eq_ok, pure_eq_ok]
    exact ⟨a, rfl, (), hkind, (), hmark, rfl⟩

/-- A value can be read from every attribute. -/
theorem exists_ofForm_value (schema : Schema) (pick : Pick P) (a : Attribute) :
    ∃ held, ofForm schema pick a .value = .ok held := by
  rw [ofForm]
  split
  · exact ⟨_, rfl⟩
  · exact ⟨_, rfl⟩

theorem exists_ofSelection_value_iff :
    (∃ p, ofSelection schema traits mutable (.leaf pick .value) = .ok p) ↔
      ∃ a, bound schema traits pick = .ok a := by
  constructor
  · rintro ⟨p, hp⟩
    obtain ⟨a, _, _, ha, _⟩ := ofSelection_leaf_eq_ok hp
    exact ⟨a, ha⟩
  · rintro ⟨a, ha⟩
    obtain ⟨held, hheld⟩ := exists_ofForm_value schema pick a
    refine ⟨.leaf (infoOf traits pick a held.1) held.2, ?_⟩
    simp only [ofSelection, bind_eq_ok, pure_eq_ok]
    exact ⟨a, ha, held, hheld, rfl⟩

end Property

/-! ### Bodies of plain items -/

section Bodies

variable {heads : List (Selected P)}

/-- What plain items select. -/
def Selected.selections (entity : Name) (heads : List (Selected P)) : List (Selection P) :=
  heads.map fun head => .leaf (Selection.plainPick entity head) .value

theorem Selection.ofItems_plain (site : Site) (hpattern : site.pattern = none)
    (seen : List (Located P Name)) (hplain : ∀ head ∈ heads, head.recursive = false) :
    ofItems schema site seen (heads.map .plain) = .ok (Selected.selections site.entity heads) := by
  induction heads generalizing seen with
  | nil => rfl
  | cons head heads ih =>
    obtain ⟨hhead, hheads⟩ := List.forall_mem_cons.mp hplain
    rw [List.map_cons, ofItems, ofItem, plain, hhead, ih _ hheads, hpattern]
    rfl

theorem Selection.ofBody_plain {body : Body P} (hitems : body.items = heads.map .plain)
    (hplain : ∀ head ∈ heads, head.recursive = false) (entity type : Name) :
    ofBody schema entity type body = .ok (Selected.selections entity heads) := by
  have hnegatives : negatives (heads.map (Item.plain (P := P))) = [] := by
    simp [negatives, List.filterMap_map]
  rw [ofBody, hitems, bodyOf_of_negatives_eq_nil hnegatives, ofItems_plain _ rfl _ hplain]

theorem Body.users_eq_nil_of_plain {body : Body P} (hitems : body.items = heads.map .plain) :
    body.users = [] := by
  refine Body.users_eq_nil ?_
  rw [hitems, List.forall_mem_map]
  exact fun _ _ => rfl

theorem Selected.map_name_selections (entity : Name) :
    (selections entity heads).map Selection.name = heads.map (·.output) := by
  rw [selections, List.map_map]
  rfl

/-- Each of them was written out, and is read directly. -/
theorem Selected.nodup_origins_iff (entity : Name) :
    ((selections entity heads).filterMap (·.pick.origin)).Nodup ↔
      (heads.map (·.name.val)).Nodup := by
  have horigins : (selections entity heads).filterMap (·.pick.origin) =
      (heads.map (·.name.val)).map (Prod.mk []) := by
    rw [selections, List.filterMap_map, List.map_map, ← List.filterMap_eq_map]
    rfl
  rw [horigins, List.nodup_map_iff (Prod.mk_right_injective [])]

/-- **Plain items are bound exactly if** each of them can be, their names are distinct, and so are
their names in the output. -/
theorem Selected.exists_ofSelections_iff (entity type : Name) :
    (∃ properties, Property.ofSelections schema traits mutable type {} (selections entity heads) =
        .ok properties) ↔
      (∀ head ∈ heads, ∃ a,
        Property.bound schema traits (Selection.plainPick entity head) = .ok a) ∧
        (heads.map (·.output)).Nodup ∧ (heads.map (·.name.val)).Nodup := by
  rw [Property.exists_ofSelections_iff, map_name_selections, nodup_origins_iff, selections,
    List.forall_mem_map]
  simp only [Property.exists_ofSelection_value_iff]

end Bodies

/-! ### Declarations -/

section Declarations

variable {defaults : Defaults} {entity : Name} {shared : List (Located P Modifier)}
  {decl : Declaration P} {heads : List (Selected P)}

theorem Dto.exists_ofDeclaration_plain_iff (htags : decl.tags = [])
    (hitems : decl.body.items = heads.map .plain)
    (hplain : ∀ head ∈ heads, head.recursive = false) :
    (∃ d, Dto.ofDeclaration schema defaults entity shared decl = .ok d) ↔
      ∃ traits, Traits.resolve shared decl.modifiers defaults.stance = .ok traits ∧
        (∀ head ∈ heads, ∃ a,
          Property.bound schema traits (Selection.plainPick entity head) = .ok a) ∧
        (heads.map (·.output)).Nodup ∧ (heads.map (·.name.val)).Nodup := by
  have husers : decl.body.users = [] := Body.users_eq_nil_of_plain hitems
  have hmutability : Mutability.resolve? decl.tags = .ok .unspecified := by
    rw [htags]
    rfl
  simp only [Dto.ofDeclaration, Selection.ofBody_plain hitems hplain, hmutability, husers,
    UserProperty.ofItems, bind_eq_ok, pure_eq_ok, Except.ok.injEq]
  constructor
  · rintro ⟨_, _, rfl, traits, htraits, _, rfl, properties, hproperties, _⟩
    exact ⟨traits, htraits,
      (Selected.exists_ofSelections_iff entity decl.name.val).mp ⟨properties, hproperties⟩⟩
  · rintro ⟨traits, htraits, hheads⟩
    obtain ⟨properties, hproperties⟩ :=
      (Selected.exists_ofSelections_iff entity decl.name.val).mpr hheads
    exact ⟨_, _, rfl, traits, htraits, _, rfl, properties, hproperties, [], rfl, rfl⟩

/-- The conditions for one item, in the words of the entity and the modifiers. -/
theorem Selected.exists_bound_iff {e : Entity} {sharedWords ownWords : List Modifier}
    {default : Stance} (he : schema.entity? entity = some e)
    (hfollows : traits.Follows sharedWords ownWords default) (head : Selected P) :
    (∃ a, Property.bound schema traits (Selection.plainPick entity head) = .ok a) ↔
      (∃ a ∈ e.attributes, a.name = head.name.val) ∧
        (∀ a ∈ e.attributes, a.name = head.name.val → a.kind = .deletedMarker →
          .deleted ∈ sharedWords ∨ .deleted ∈ ownWords) ∧
        (∀ a ∈ e.attributes, a.name = head.name.val → ∀ dependencies,
          a.kind = .computed dependencies →
            ∀ dependency ∈ dependencies, ∃ b ∈ e.attributes, b.name = dependency) ∧
        (head.nullability.map (·.val) = some .nonNull → .input ∈ ownWords) := by
  have hdeclares (a : Attribute) : schema.Declares entity a ↔ a ∈ e.attributes := by
    simp [Schema.Declares, he]
  have hread (a : Attribute) : schema.attribute? entity head.name.val = some a ↔
      a ∈ e.attributes ∧ a.name = head.name.val := by
    rw [Schema.attribute?_eq_some_iff, hdeclares]
  have hbound (a : Attribute) :
      Property.bound schema traits (Selection.plainPick entity head) = .ok a ↔
        (a ∈ e.attributes ∧ a.name = head.name.val) ∧
          ((a.kind = .deletedMarker → .deleted ∈ sharedWords ∨ .deleted ∈ ownWords) ∧
            ∀ dependencies, a.kind = .computed dependencies →
              ∀ dependency ∈ dependencies, ∃ b ∈ e.attributes, b.name = dependency) ∧
          (head.nullability.map (·.val) = some .nonNull → .input ∈ ownWords) := by
    rw [Property.bound_eq_ok_iff, Property.checkKind_eq_ok_iff, Property.checkMark_eq_ok_iff,
      Traits.isInput_iff, hfollows.input, hfollows.deleted]
    simp only [Selection.plainPick, hread, hdeclares]
  simp only [hbound]
  constructor
  · rintro ⟨a, ⟨hmem, hname⟩, ⟨hdeleted, hcomputed⟩, hmark⟩
    -- No other attribute has this name.
    have hsame (b : Attribute) (hb : b ∈ e.attributes) (hbname : b.name = head.name.val) : b = a :=
      Option.some.inj (((hread b).mpr ⟨hb, hbname⟩).symm.trans ((hread a).mpr ⟨hmem, hname⟩))
    refine ⟨⟨a, hmem, hname⟩, ?_, ?_, hmark⟩
    · intro b hb hbname
      rw [hsame b hb hbname]
      exact hdeleted
    · intro b hb hbname
      rw [hsame b hb hbname]
      exact hcomputed
  · rintro ⟨⟨a, hmem, hname⟩, hdeleted, hcomputed, hmark⟩
    exact ⟨a, ⟨hmem, hname⟩, ⟨hdeleted a hmem hname, hcomputed a hmem hname⟩, hmark⟩

theorem Dto.exists_ofDeclaration_iff_offers {e : Entity} (he : schema.entity? entity = some e)
    (htags : decl.tags = []) (hitems : decl.body.items = heads.map .plain)
    (hplain : ∀ head ∈ heads, head.recursive = false) :
    (∃ d, Dto.ofDeclaration schema defaults entity shared decl = .ok d) ↔
      e.Offers (shared.map (·.val)) (decl.modifiers.map (·.val)) heads := by
  rw [Dto.exists_ofDeclaration_plain_iff htags hitems hplain]
  -- The items are only looked at with traits, so the modifiers come first.
  rcases Traits.resolve_cases shared decl.modifiers defaults.stance with
    ⟨hpermitted, traits, htraits, hfollows⟩ | ⟨hnot, fault, hfault, _⟩
  · constructor
    · rintro ⟨_, htraits', hheads, houtputs, hsources⟩
      obtain rfl := Except.ok.inj (htraits.symm.trans htraits')
      have hheads (head : Selected P) (hhead : head ∈ heads) :=
        (Selected.exists_bound_iff he hfollows head).mp (hheads head hhead)
      exact {
        known := fun head hhead => (hheads head hhead).1
        sources := hsources
        outputs := houtputs
        deleted := fun head hhead => (hheads head hhead).2.1
        computed := fun head hhead => (hheads head hhead).2.2.1
        mark := fun head hhead => (hheads head hhead).2.2.2
        modifiers := hpermitted }
    · intro h
      refine ⟨traits, htraits, ?_, h.outputs, h.sources⟩
      intro head hhead
      exact (Selected.exists_bound_iff he hfollows head).mpr
        ⟨h.known head hhead, h.deleted head hhead, h.computed head hhead, h.mark head hhead⟩
  · constructor
    · rintro ⟨traits, htraits, _⟩
      rw [hfault] at htraits
      cases htraits
    · intro h
      exact absurd h.modifiers hnot

/-- A type of plain items has one property for each of them, which reads the attribute it names. -/
theorem Dto.Arises.properties_of_plain {selections : List (Selection P)} {d : Dto}
    (h : Dto.Arises schema defaults entity shared decl selections d)
    (hitems : decl.body.items = heads.map .plain)
    (hplain : ∀ head ∈ heads, head.recursive = false) :
    d.properties.map (fun p => ((p.info.path, p.info.source), p.info.name)) =
      heads.map fun head => (([], head.name.val), head.output) := by
  have hselected := h.selected
  rw [Selection.ofBody_plain hitems hplain] at hselected
  obtain rfl := Except.ok.inj hselected
  have hbound := Property.forall₂_of_ofSelections h.properties
  rw [Selected.selections, List.forall₂_map_left_iff] at hbound
  refine (map_eq_map_of_forall₂ hbound ?_).symm
  intro head p hp
  rw [Property.reads_of_origin hp rfl, Property.name_ofSelection hp]
  rfl

end Declarations

/-! ### Sources -/

/-- **Exactly these plain selections are accepted.** A source for an entity with one declaration,
without annotations and of plain items only, compiles exactly if the entity offers what they select:
each name is one of the entity, no name and no name in the output is repeated, a logically-deleted
marker stands with `deleted`, a computed attribute has all that it depends on, a mark `!` stands in
an input, and the modifiers can stand together. Then the type has one property for each item, in
their order, with the name that it reads and its name in the output. -/
theorem Source.compile_plain_items (schema : Schema) (defaults : Defaults) {s : Source P}
    {decl : Declaration P} (hdecl : s.declarations = [decl]) (htags : decl.tags = []) {e : Entity}
    (he : schema.entity? s.entity.val = some e) {heads : List (Selected P)}
    (hitems : decl.body.items = heads.map .plain)
    (hplain : ∀ head ∈ heads, head.recursive = false) :
    ((∃ types, s.compile schema defaults = .ok types) ↔
      e.Offers (s.modifiers.map (·.val)) (decl.modifiers.map (·.val)) heads) ∧
      ∀ types, s.compile schema defaults = .ok types →
        ∃ d, types = [d] ∧ d.users = [] ∧
          d.properties.map (fun p => ((p.info.path, p.info.source), p.info.name)) =
            heads.map fun head => (([], head.name.val), head.output) := by
  obtain ⟨entity, shared, declarations⟩ := s
  obtain rfl : declarations = [decl] := hdecl
  have hcompile (types : List Dto) :
      (⟨entity, shared, [decl]⟩ : Source P).compile schema defaults = .ok types ↔
        ∃ d, Dto.ofDeclaration schema defaults entity.val shared decl = .ok d ∧ types = [d] := by
    rw [← single, compile_single_eq_ok]
    exact and_iff_right (Option.isSome_iff_exists.mpr ⟨e, he⟩)
  simp only [hcompile]
  constructor
  · rw [← Dto.exists_ofDeclaration_iff_offers he htags hitems hplain]
    constructor
    · rintro ⟨_, d, hd, _⟩
      exact ⟨d, hd⟩
    · rintro ⟨d, hd⟩
      exact ⟨[d], d, hd, rfl⟩
  · rintro types ⟨d, hd, rfl⟩
    obtain ⟨selections, harises⟩ := Dto.arises_of_ofDeclaration hd
    have husers := harises.users
    rw [Body.users_eq_nil_of_plain hitems] at husers
    exact ⟨d, rfl, (Except.ok.inj husers).symm, harises.properties_of_plain hitems hplain⟩

/-! ### An example

An account that was closed keeps the time of that. Whether it is overdrawn is computed from its
balance; its risk, from a rating that it does not have. -/

namespace Bank

def account : Entity where
  name := "Account"
  marker := .entity
  attributes := [.id "id" "Long", .scalar "balance" "Long",
    .computed "overdrawn" "Boolean" ["balance"], .computed "risk" "Int" ["rating"],
    .deletedMarker "closedAt" "Instant"]
  distinct := by decide

def registry : Registry where
  entities := [account]
  graph := some (.ofEntities [account])

/-- The declaration `input fuzzy input Statement ⟨heads⟩`. -/
def statement (heads : List (Selected Unit)) : Declaration Unit where
  name := ⟨"Statement", ()⟩
  tags := []
  modifiers := [⟨.input, ()⟩, ⟨.stance .fuzzy, ()⟩, ⟨.input, ()⟩]
  body := ⟨heads.map .plain, ()⟩

/-- The source of that declaration with modifiers for all types. -/
def source (shared : List (Located Unit Modifier)) (heads : List (Selected Unit)) : Source Unit :=
  ⟨⟨"Account", ()⟩, shared, [statement heads]⟩

def closedAt : Selected Unit :=
  ⟨⟨"closedAt", ()⟩, false, some ⟨.nullable, ()⟩, none⟩

def risk : Selected Unit :=
  ⟨⟨"risk", ()⟩, false, none, none⟩

/-- The items `id! as number, overdrawn as id, closedAt?`. -/
def heads : List (Selected Unit) :=
  [⟨⟨"id", ()⟩, false, some ⟨.nonNull, ()⟩, some ⟨"number", ()⟩⟩,
    ⟨⟨"overdrawn", ()⟩, false, none, some ⟨"id", ()⟩⟩, closedAt]

theorem statement_acceptance :
    account.Offers [.deleted] [.input, .stance .fuzzy, .input] heads ∧
      (∃ d, (source [⟨.deleted, ()⟩] heads).compile (SchemaStore.schema registry) {} = .ok [d] ∧
        d.properties.map (fun p => ((p.info.path, p.info.source), p.info.name)) =
          [(([], "id"), "number"), (([], "overdrawn"), "id"), (([], "closedAt"), "closedAt")]) ∧
      (¬ ∃ types, (source [] heads).compile (SchemaStore.schema registry) {} = .ok types) ∧
      ¬ ∃ types, (source [⟨.deleted, ()⟩] [risk]).compile (SchemaStore.schema registry) {} =
        .ok types := by
  have haccept (shared : List (Located Unit Modifier)) (heads : List (Selected Unit))
      (hplain : ∀ head ∈ heads, head.recursive = false) :=
    Source.compile_plain_items (SchemaStore.schema registry) {} (s := source shared heads) rfl rfl
      (e := account) rfl rfl hplain
  obtain ⟨hiff, htypes⟩ := haccept [⟨.deleted, ()⟩] heads (by decide)
  refine ⟨hiff.mp ⟨_, rfl⟩, ?_, ?_, ?_⟩
  · obtain ⟨d, hd, _, hproperties⟩ := htypes _ rfl
    exact ⟨d, congrArg Except.ok hd, hproperties⟩
  · intro hcompiles
    have hoffers := (haccept [] heads (by decide)).1.mp hcompiles
    have hdeleted := hoffers.deleted closedAt (by simp [heads])
      (.deletedMarker "closedAt" "Instant") (by simp [account]) rfl rfl
    exact absurd hdeleted (by decide)
  · intro hcompiles
    have hoffers := (haccept _ [risk] (by decide)).1.mp hcompiles
    have hcomputed := hoffers.computed risk (by simp)
      (.computed "risk" "Int" ["rating"]) (by simp [account]) rfl _ rfl "rating" (by simp)
    exact absurd hcomputed (by decide)

end Bank

end Projection
