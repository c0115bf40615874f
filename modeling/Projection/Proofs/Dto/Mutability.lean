import Projection.Proofs.Dto.Distinct

/-!
# What annotations say about mutability

A declaration asks for mutable or immutable output by the argument `immutability` of an annotation
`Dto`, and may do so more than once. The choice is made from all arguments as they were written; a
type shows its annotations with repeated arguments put together. Both come to the same: setting
arguments one after the other leaves the last value of each (`Tag.argument?_ofItem`), so the last
request among the annotations that are shown is the last one that was written
(`Tag.lastRequest?_map_ofItem`), and that alone decides (`Mutability.reads_of_resolve?`).
-/

namespace Projection

variable {P : Type}

/-! ### Arguments of an annotation -/

namespace Tag

/-- One argument is set, and the others stay. -/
theorem find?_setArgument (arguments : List (Name × Value)) (name other : Name) (value : Value) :
    ((setArgument arguments name value).find? (·.1 == other)).map (·.2) =
      if other = name then some value else (arguments.find? (·.1 == other)).map (·.2) := by
  unfold setArgument
  split
  · rename_i hany
    have hkeys : ((fun a : Name × Value => a.1 == other) ∘
        fun a => if a.1 == name then (name, value) else a) = (·.1 == other) := by
      funext a
      by_cases ha : a.1 = name <;> simp [ha]
    rw [List.find?_map, hkeys]
    cases hfound : arguments.find? (·.1 == other) with
    | none =>
      have hne : other ≠ name := by
        rintro rfl
        obtain ⟨a, ha, hkey⟩ := List.any_eq_true.mp hany
        exact absurd hkey (List.find?_eq_none.mp hfound a ha)
      simp [hne]
    | some a =>
      have ha : a.1 = other := by simpa using List.find?_some hfound
      by_cases hname : other = name <;> simp [ha, hname]
  · rename_i hany
    rw [List.find?_append]
    by_cases hname : other = name
    · subst hname
      have hfound : arguments.find? (·.1 == other) = none :=
        List.find?_eq_none.mpr fun a ha hkey => hany (List.any_eq_true.mpr ⟨a, ha, hkey⟩)
      simp [hfound]
    · have hne : (name == other) = false := beq_false_of_ne (Ne.symm hname)
      simp [hname, hne]

/-- Of values that are set one after the other, the last one with a name is kept. -/
theorem find?_foldl_setArgument (items : List (Located P Name × Located P Value))
    (arguments : List (Name × Value)) (name : Name) :
    ((items.foldl (fun args (name, value) => setArgument args name.val value.val) arguments).find?
        (·.1 == name)).map (·.2) =
      ((items.filter (·.1.val == name)).getLast?.map (·.2.val)).or
        ((arguments.find? (·.1 == name)).map (·.2)) := by
  induction items generalizing arguments with
  | nil => rfl
  | cons item items ih =>
    rw [List.foldl_cons, ih, find?_setArgument]
    by_cases hname : name = item.1.val
    · rw [if_pos hname, List.filter_cons_of_pos (by simp [hname]), List.getLast?_cons]
      cases (items.filter (·.1.val == name)).getLast? <;> rfl
    · rw [if_neg hname, List.filter_cons_of_neg (by simpa using Ne.symm hname)]

/-- An argument has the last value that was written for it. -/
theorem argument?_ofItem (item : TagItem P) (name : Name) :
    (ofItem item).argument? name =
      (item.arguments.filter (·.1.val == name)).getLast?.map (·.2.val) := by
  rw [argument?, ofItem, find?_foldl_setArgument]
  simp

/-! ### The last request -/

/-- The value of the argument `immutability` of an annotation `Dto`. -/
def request? (t : Tag) : Option Value :=
  if Name.simple t.name = "Dto" then t.argument? "immutability" else none

/-- The value in the last of the annotations that have one. -/
def lastRequest? (tags : List Tag) : Option Value :=
  tags.reverse.findSome? request?

theorem request?_ofItem (item : TagItem P) :
    (ofItem item).request? = (Mutability.requests [item]).getLast?.map (·.val) := by
  have hitem : (ofItem item).name = item.name.val := rfl
  rw [request?, Mutability.requests, hitem]
  by_cases hname : Name.simple item.name.val = "Dto"
  · rw [if_pos hname, argument?_ofItem, List.filter_cons_of_pos (by simpa using hname),
      List.filter_nil, List.flatMap_singleton, List.getLast?_map, Option.map_map]
    rfl
  · rw [if_neg hname, List.filter_cons_of_neg (by simpa using hname)]
    rfl

/-- **The annotations that are shown have the last request that was written.** -/
theorem lastRequest?_map_ofItem (items : List (TagItem P)) :
    lastRequest? (items.map ofItem) = (Mutability.requests items).getLast?.map (·.val) := by
  -- By induction from the last annotation on: it has a request, or those before it decide.
  induction items using List.reverseRecOn with
  | nil => rfl
  | append_singleton items item ih =>
    have hrequests : Mutability.requests (items ++ [item]) =
        Mutability.requests items ++ Mutability.requests [item] := by
      simp only [Mutability.requests, List.filter_append, List.flatMap_append]
    rw [hrequests, List.getLast?_append, Option.map_or, ← request?_ofItem, ← ih, lastRequest?,
      List.map_append, List.reverse_append, List.map_singleton, List.reverse_singleton,
      List.singleton_append, List.findSome?_cons]
    cases (ofItem item).request? <;> rfl

end Tag

/-! ### The choice -/

/-- When each step forgets what was before it, the last one decides. -/
theorem foldlM_last_eq_ok {ε α β : Type} {f : α → Except ε β} {first last : β} {as : List α}
    (h : as.foldlM (fun _ a => f a) first = .ok last) :
    (as.getLast? = none ∧ last = first) ∨ ∃ a, as.getLast? = some a ∧ f a = .ok last := by
  induction as generalizing first with
  | nil =>
    cases h
    exact .inl ⟨rfl, rfl⟩
  | cons a as ih =>
    rw [List.foldlM_cons] at h
    obtain ⟨next, hnext, hrest⟩ := bind_eq_ok.mp h
    rw [List.getLast?_cons]
    rcases ih hrest with ⟨hnone, rfl⟩ | ⟨b, hb, hlast⟩
    · rw [hnone]
      exact .inr ⟨a, rfl, hnext⟩
    · rw [hb]
      exact .inr ⟨b, rfl, hlast⟩

namespace Mutability

/-- The choice is the one that a requested value names. -/
structure Reads (m : Mutability) (requested : Option Value) : Prop where
  mutable : m = .mutable ↔ ∃ name, requested = some (.constant name) ∧ Name.simple name = "MUTABLE"
  immutable :
    m = .immutable ↔ ∃ name, requested = some (.constant name) ∧ Name.simple name = "IMMUTABLE"
  unspecified : m = .unspecified ↔ requested = none ∨
    ∃ name, requested = some (.constant name) ∧ Name.simple name ≠ "MUTABLE" ∧
      Name.simple name ≠ "IMMUTABLE"

theorem reads_none : Reads .unspecified none where
  mutable := by simp
  immutable := by simp
  unspecified := by simp

theorem reads_of_ofValue {value : Located P Value} {m : Mutability} (h : ofValue value = .ok m) :
    m.Reads (some value.val) := by
  unfold ofValue at h
  split at h
  · rename_i name hname
    rw [hname]
    split at h
    · cases h
      constructor <;> simp_all
    · split at h
      · cases h
        constructor <;> simp_all
      · cases h
        constructor <;> simp_all
  · cases h

/-- The last request decides. -/
theorem reads_of_resolve? {items : List (TagItem P)} {m : Mutability}
    (h : resolve? items = .ok m) : m.Reads ((requests items).getLast?.map (·.val)) := by
  rcases foldlM_last_eq_ok h with ⟨hnone, rfl⟩ | ⟨value, hvalue, hm⟩
  · rw [hnone]
    exact reads_none
  · rw [hvalue]
    exact reads_of_ofValue hm

theorem resolve_eq_true_iff (m : Mutability) (default : Bool) :
    m.resolve default = true ↔ m = .mutable ∨ m = .unspecified ∧ default = true := by
  cases m <;> simp [resolve]

end Mutability

/-! ### Compiled types -/

section Compiled

variable {schema : Schema} {defaults : Defaults} {entity : Name}
  {shared : List (Located P Modifier)} {decl : Declaration P} {selections : List (Selection P)}
  {d : Dto}

/-- The types in a type are as mutable as the whole. -/
theorem Dto.Arises.mutable_eq_of_holds
    (hd : Dto.Arises schema defaults entity shared decl selections d) {T : Outline}
    {properties : List Property} (hT : d.Holds T properties) : T.mutable = d.outline.mutable := by
  cases hT with
  | top => rfl
  | inner houter hmem =>
    obtain ⟨_, _, _, _, hof⟩ := hd.declared houter
    obtain ⟨s, _, hs⟩ := exists_mem_of_forall₂ (Property.forall₂_of_ofSelections hof) hmem
    obtain ⟨_, _, _, _, _, rfl, _⟩ := Property.ofSelection_eq_nested hs
    rfl

/-- **Annotations decide about mutability.** A compiled type shows the last request that was
written, and has the mutability that this request names: the simple name of an enum constant
decides, and without a request, or with another constant, nothing is specified. Then the default
holds. All types in the type are as mutable as the whole. -/
theorem Source.compile_mutability {s : Source P} {types : List Dto}
    (hs : s.compile schema defaults = .ok types) :
    List.Forall₂ (fun decl d =>
      Tag.lastRequest? d.tags = (Mutability.requests decl.tags).getLast?.map (·.val) ∧
        d.mutability.Reads (Tag.lastRequest? d.tags) ∧
        (d.outline.mutable = true ↔
          d.mutability = .mutable ∨ d.mutability = .unspecified ∧ defaults.mutable = true) ∧
        ∀ T properties, d.Holds T properties → T.mutable = d.outline.mutable)
      s.declarations types := by
  refine (Source.arises_of_compile hs).2.imp ?_
  rintro decl d ⟨selections, hd⟩
  have hlast : Tag.lastRequest? d.tags =
      (Mutability.requests decl.tags).getLast?.map (·.val) := by
    rw [hd.tags, Tag.lastRequest?_map_ofItem]
  refine ⟨hlast, ?_, ?_, fun T properties hT => hd.mutable_eq_of_holds hT⟩
  · rw [hlast]
    exact Mutability.reads_of_resolve? hd.mutability
  · rw [hd.mutable_eq]
    exact Mutability.resolve_eq_true_iff d.mutability defaults.mutable

end Compiled

/-! ### An example

A profile with three annotations. The second one repeats an argument, and its last value is
qualified; the third one is no `Dto`. -/

namespace Staff

/-- An annotation with values that are enum constants. -/
def tagged (name : Name) (arguments : List (Name × Name)) : TagItem Unit :=
  ⟨at_ name, arguments.map fun (name, value) => (at_ name, at_ (.constant value))⟩

/-- The source `export Employee; @Dto(..) @hr.Dto(..) @Doc(..) Profile ⟨manager ⟨name⟩⟩`. -/
def profileSource : Source Unit where
  entity := at_ "Employee"
  modifiers := []
  declarations := [{
    name := at_ "Profile"
    tags := [tagged "Dto" [("immutability", "MUTABLE")],
      tagged "hr.Dto" [("immutability", "MUTABLE"), ("layout", "WIDE"),
        ("immutability", "Immutability.IMMUTABLE")],
      tagged "Doc" [("immutability", "MUTABLE")]]
    modifiers := []
    body := ⟨[.nested ⟨at_ "manager", false, none, none⟩
      [.plain ⟨at_ "name", false, none, none⟩] ()], ()⟩ }]

/-- The type of the manager in the profile. -/
def profileManager : Outline :=
  ⟨"Employee", "TargetOf_manager", {}, false⟩

theorem profile_is_immutable :
    ∃ d info, profileSource.compile (SchemaStore.schema registry) ⟨true, .static⟩ = .ok [d] ∧
      d.properties = [.nested info profileManager [ownName]] ∧
      Tag.lastRequest? d.tags = some (.constant "Immutability.IMMUTABLE") ∧
      d.mutability = .immutable ∧ d.outline.mutable = false ∧
      profileManager.mutable = d.outline.mutable := by
  obtain ⟨d, info, hcompiles, hproperties, hlast⟩ : ∃ d info,
      profileSource.compile (SchemaStore.schema registry) ⟨true, .static⟩ = .ok [d] ∧
        d.properties = [.nested info profileManager [ownName]] ∧
        Tag.lastRequest? d.tags = some (.constant "Immutability.IMMUTABLE") :=
    ⟨_, _, rfl, rfl, rfl⟩
  obtain ⟨_, hreads, hmutable, hinner⟩ :=
    (List.forall₂_cons.mp (Source.compile_mutability hcompiles)).1
  have hchoice : d.mutability = .immutable := hreads.immutable.mpr ⟨_, hlast, by decide⟩
  refine ⟨d, info, hcompiles, hproperties, hlast, hchoice, ?_, ?_⟩
  · rw [hchoice] at hmutable
    simpa using hmutable
  · have hmem : .nested info profileManager [ownName] ∈ d.properties :=
      hproperties ▸ List.mem_singleton_self _
    exact hinner profileManager [ownName] (.inner .top hmem)

end Staff

end Projection
