import Projection.Proofs.Dto.Reading
import Projection.Proofs.Rendering.Layout
import Projection.Proofs.Rendering.Structs

/-!
# Recursive fields

A recursive property stands for an enclosing type. Selection finds that type by its entity, the
innermost first, and keeps its name; rendering looks the name up again among the enclosing structs,
also the innermost first. The two find the same type unless a type further in has the name as well,
which happens where nested selections below each other read attributes of one name.

`Source.compile_recursive_field` says exactly when the field is of a struct for the entity behind
the association. `Places.largest_is_not_of_region` is a source where it is not.
-/

namespace Projection

namespace Rendering

variable {T : Outline} {outer : List Outline}

/-- The struct is the one for an enclosing type of this entity, `T` among them. -/
def NamesEnclosing (T : Outline) (outer : List Outline) (entity : Name) (struct : String) : Prop :=
  ∃ o rest, (o :: rest) <:+ (T :: outer) ∧ o.entity = entity ∧ structNameAt o rest = struct

/-! ### Looking up a name -/

theorem structOf_scopesAt_self (T : Outline) (outer : List Outline) :
    (scopesAt T outer).structOf T.name = structNameAt T outer := by
  cases outer <;> simp [scopesAt, Scopes.structOf]

theorem structOf_scopesAt_cons {T o : Outline} {outer : List Outline} {type : Name}
    (h : T.name ≠ type) :
    (scopesAt T (o :: outer)).structOf type = (scopesAt o outer).structOf type := by
  simp [scopesAt, Scopes.structOf, h]

/-- The lookup gives the struct of the innermost type with the name. -/
theorem structOf_scopesAt {o : Outline} {before rest : List Outline}
    (hchain : T :: outer = before ++ o :: rest) (hbefore : ∀ a ∈ before, a.name ≠ o.name) :
    (scopesAt T outer).structOf o.name = structNameAt o rest := by
  induction before generalizing T outer with
  | nil =>
    obtain ⟨rfl, rfl⟩ := List.cons.inj hchain
    exact structOf_scopesAt_self T outer
  | cons q before ih =>
    obtain ⟨rfl, houter⟩ := List.cons.inj hchain
    have hne := hbefore T List.mem_cons_self
    cases outer with
    | nil => simp at houter
    | cons o' outer =>
      rw [structOf_scopesAt_cons hne]
      exact ih houter fun a ha => hbefore a (List.mem_cons_of_mem T ha)

/-- Where a type of an inner part of the way has the name, the lookup stays in that part. -/
theorem structOf_scopesAt_of_mem {a : Outline} {before rest : List Outline}
    (hchain : T :: outer = before ++ rest) (ha : a ∈ before) :
    ∃ b ∈ before, ∃ tail, (b :: tail) <:+ (T :: outer) ∧
      (scopesAt T outer).structOf a.name = structNameAt b tail := by
  induction before generalizing T outer with
  | nil => cases ha
  | cons q before ih =>
    obtain ⟨rfl, houter⟩ := List.cons.inj hchain
    by_cases hname : T.name = a.name
    · refine ⟨T, List.mem_cons_self, outer, List.suffix_refl _, ?_⟩
      rw [← hname]
      exact structOf_scopesAt_self T outer
    · have ha : a ∈ before := by
        rcases List.mem_cons.mp ha with rfl | ha
        · exact absurd rfl hname
        · exact ha
      cases outer with
      | nil =>
        rw [(List.append_eq_nil_iff.mp houter.symm).1] at ha
        cases ha
      | cons o outer =>
        obtain ⟨b, hb, tail, hsuffix, hstruct⟩ := ih houter ha
        refine ⟨b, List.mem_cons_of_mem T hb, tail, hsuffix.trans (List.suffix_cons T _), ?_⟩
        rw [structOf_scopesAt_cons hname]
        exact hstruct

/-- **The lookup by name finds the type that was found by entity** exactly if no type further in has
its name. -/
theorem namesEnclosing_structOf_iff {target : Name} {o : Outline} (hnames : NestedNames T outer)
    (hfound : (T :: outer).find? (·.entity == target) = some o) :
    NamesEnclosing T outer target ((scopesAt T outer).structOf o.name) ↔
      ∀ a ∈ (T :: outer).takeWhile (·.entity != target), a.name ≠ o.name := by
  obtain ⟨hentity, before, rest, hchain, hbefore⟩ := List.find?_eq_some_iff_append.mp hfound
  have hinside : (T :: outer).takeWhile (·.entity != target) = before := by
    rw [hchain, List.takeWhile_append_of_pos (by simpa using hbefore)]
    simp [bne, hentity]
  rw [hinside]
  constructor
  · rintro ⟨q, tail, hsuffix, hq, hstruct⟩ a ha hname
    -- The lookup stops further in than `o`, where no type is of `target`.
    obtain ⟨b, hb, tail', hsuffix', hstruct'⟩ := structOf_scopesAt_of_mem hchain ha
    rw [← hname, hstruct'] at hstruct
    obtain ⟨rfl, _⟩ := List.cons.inj (structNameAt_injective hnames hsuffix hsuffix' hstruct)
    have hother := hbefore q hb
    simp [hq] at hother
  · intro hclear
    refine ⟨o, rest, ⟨before, hchain.symm⟩, by simpa using hentity, ?_⟩
    exact (structOf_scopesAt hchain hclear).symm

/-- How the type of a recursive field is written. -/
def recursiveText (info : PropertyInfo) (struct : String) : String :=
  let base := if info.many then "Vec<" ++ struct ++ ">" else "Box<" ++ struct ++ ">"
  if info.nullable then "Option<" ++ base ++ ">" else base

theorem text_recursive (info : PropertyInfo) (struct : String) :
    ((if info.many then FieldType.vec (.struct struct)
      else .box (.struct struct)).nullable info.nullable).text = recursiveText info struct := by
  unfold recursiveText
  cases info.nullable <;> cases info.many <;> rfl

end Rendering

/-- **Recursive fields.** Take a recursive property at any depth of what a source compiles to. It
reads an association, to the entity `target`, and its field stands in the struct of its type, with a
line that ends in a box or a vector of one more struct. Every enclosing type has its struct, too,
and the one in the box is that of an enclosing type of `target` if and only if none of the types
inside the innermost enclosing type of `target` has the name of that type. -/
theorem Source.compile_recursive_field {P : Type} {schema : Schema} {defaults : Defaults}
    {s : Source P} {types : List Dto} (hs : s.compile schema defaults = .ok types) {d : Dto}
    (hd : d ∈ types) {T : Outline} {outer : List Outline} {info : PropertyInfo} {type : Name}
    (hp : d.Encloses T outer (.leaf info (.recursive type))) (source : Name) (mutable : Bool)
    (entityModule : String) :
    (Rendering.ofDto d source mutable entityModule).LaidOut ∧
    ∃ via owner m target, info.ReadsFrom schema T.entity via owner m ∧
      m.kind = .association target info.many ∧
      (∀ o rest, (o :: rest) <:+ (T :: outer) →
        ∃ struct ∈ (Rendering.ofDto d source mutable entityModule).structs,
          struct.name = Rendering.structNameAt o rest ∧ struct.entity = o.entity) ∧
      ∃ struct ∈ (Rendering.ofDto d source mutable entityModule).structs,
        struct.name = Rendering.structNameAt T outer ∧
        Rendering.fieldAt T outer (.leaf info (.recursive type)) ∈ struct.fields ∧
        ∃ written, (Rendering.fieldAt T outer (.leaf info (.recursive type))).type =
            (if info.many then FieldType.vec (.struct written)
              else .box (.struct written)).nullable info.nullable ∧
          (Rendering.fieldAt T outer (.leaf info (.recursive type))).type.text =
            Rendering.recursiveText info written ∧
          (Rendering.NamesEnclosing T outer target written ↔
            ∀ o ∈ (T :: outer).takeWhile (·.entity != target), o.name ≠ type) := by
  obtain ⟨_, hall⟩ := Source.arises_of_compile hs
  obtain ⟨decl, _, selections, harises⟩ := exists_mem_of_forall₂ hall hd
  obtain ⟨via, owner, m, hreads, _, hmany, hagrees, _⟩ := harises.agrees hp
  obtain ⟨target, many, o, hkind, hfound, rfl⟩ := hagrees
  obtain ⟨⟨struct, hstruct, hname, _, hfield⟩, _⟩ := Rendering.rendered_of_encloses hp
  -- the property holds many exactly if its association does
  have hmany : many = info.many := by
    rw [Bool.eq_iff_iff]
    constructor
    · rintro rfl
      exact hmany.mpr ⟨target, hkind⟩
    · intro h
      obtain ⟨_, hassoc⟩ := hmany.mp h
      rw [hkind] at hassoc
      cases hassoc
      rfl
  refine ⟨Rendering.laidOut _, via, owner, m, target, hreads, hmany ▸ hkind,
    fun _ _ hsuffix => Rendering.struct_of_suffix hp hsuffix, struct, hstruct, hname, hfield,
    (Rendering.scopesAt T outer).structOf o.name, rfl, ?_, ?_⟩
  · exact Rendering.text_recursive info _
  · exact Rendering.namesEnclosing_structOf_iff (harises.nestedNames hp) hfound

/-! ### An example

A city is in a region, which is in a country, and both call it their parent. The country knows its
largest region. Within the view of a city, the region and the country then have one name as types,
and the largest region is rendered as a country. -/

namespace Places

open Staff (at_)

def city : Entity where
  name := "City"
  marker := .entity
  attributes := [.id "id" "Long", .association "parent" "Region" false]
  distinct := by decide

def region : Entity where
  name := "Region"
  marker := .entity
  attributes := [.id "id" "Long", .association "parent" "Country" false]
  distinct := by decide

def country : Entity where
  name := "Country"
  marker := .entity
  attributes := [.id "id" "Long", .association "largest" "Region" false]
  distinct := by decide

def registry : Registry where
  entities := [city, region, country]
  graph := some (.ofEntities [city, region, country])

/-- The source `export City; Place ⟨parent ⟨parent ⟨largest*⟩⟩⟩`. -/
def source : Source Unit where
  entity := at_ "City"
  modifiers := []
  declarations := [{
    name := at_ "Place"
    tags := []
    modifiers := []
    body := ⟨[.nested ⟨at_ "parent", false, none, none⟩
      [.nested ⟨at_ "parent", false, none, none⟩
        [.plain ⟨at_ "largest", true, none, none⟩] ()] ()], ()⟩ }]

/-- The property of an association, under its own name. -/
def link (name target : Name) (type : String) : PropertyInfo where
  name := name
  source := name
  newName := none
  path := []
  kind := .association target false
  type := type
  nullable := false
  nullability := none
  many := false

def cityType : Outline :=
  ⟨"City", "Place", {}, false⟩

def regionType : Outline :=
  ⟨"Region", "TargetOf_parent", {}, false⟩

def countryType : Outline :=
  ⟨"Country", "TargetOf_parent", {}, false⟩

def largest : Property :=
  .leaf (link "largest" "Region" "TargetOf_parent") (.recursive "TargetOf_parent")

def countryOfRegion : Property :=
  .nested (link "parent" "Country" "TargetOf_parent") countryType [largest]

/-- The view. -/
def place : Dto where
  outline := cityType
  tags := []
  mutability := .unspecified
  properties := [.nested (link "parent" "Region" "TargetOf_parent") regionType [countryOfRegion]]
  users := []

theorem largest_is_not_of_region :
    Registry.finalize ⟨[city, region, country], {}, none⟩ = (.ok (), registry) ∧
      source.compile (SchemaStore.schema registry) {} = .ok [place] ∧
      place.Encloses countryType [regionType, cityType] largest ∧
      (Rendering.fieldAt countryType [regionType, cityType] largest).type =
        .box (.struct "PlaceTargetOfParentTargetOfParent") ∧
      ¬ Rendering.NamesEnclosing countryType [regionType, cityType] "Region"
        "PlaceTargetOfParentTargetOfParent" := by
  have hcompiles : source.compile (SchemaStore.schema registry) {} = .ok [place] := rfl
  have hp : place.Encloses countryType [regionType, cityType] largest :=
    .inner (.inner (.top List.mem_cons_self) List.mem_cons_self) List.mem_cons_self
  refine ⟨rfl, hcompiles, hp, rfl, ?_⟩
  obtain ⟨_, via, owner, m, target, hreads, hkind, _, _, _, _, _, written, hwritten, _, hiff⟩ :=
    Source.compile_recursive_field hcompiles (List.mem_singleton.mpr rfl) hp "City" false ""
  have hlargest : (link "largest" "Region" "TargetOf_parent").ReadsFrom
      (SchemaStore.schema registry) "Country" [] "Country"
      (.association "largest" "Region" false) :=
    ⟨.here _, rfl, ⟨country, rfl, by simp [country]⟩, rfl⟩
  obtain ⟨_, _, rfl⟩ := hreads.unique hlargest
  cases hkind
  have hstruct : written = "PlaceTargetOfParentTargetOfParent" := by
    have hfield : (Rendering.fieldAt countryType [regionType, cityType] largest).type =
        .box (.struct "PlaceTargetOfParentTargetOfParent") := rfl
    have hbox := hwritten.symm.trans hfield
    injection hbox with hbox
    injection hbox
  rw [← hstruct, hiff]
  intro hclear
  exact hclear countryType (by decide) rfl

end Places

end Projection
