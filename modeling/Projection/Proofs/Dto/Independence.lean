import Projection.Proofs.Dto.Nesting

/-!
# Declarations compile on their own

The declarations of a source share its entity and its modifiers and nothing else. The macros that
one of them has used, the names that it selects and the outputs that it has taken are gone when the
next one is compiled.

`Source.compile_independently` says so by comparing one run with many: what a source compiles to,
and the fault that it is refused with, can be read off the runs on the same source with one of its
declarations at a time (`Source.single`). The one thing that has to be looked at across declarations
is their names.
-/

namespace Projection

variable {P : Type} {schema : Schema} {defaults : Defaults}

/-! ### Names -/

/-- `again` is the first of the declarations with the name of an earlier one, which is `first`. -/
def Declaration.FirstRepeated (decls : List (Declaration P)) (again first : Declaration P) : Prop :=
  ∃ before after, decls = before ++ again :: after ∧ (before.map (·.name.val)).Nodup ∧
    first ∈ before ∧ first.name.val = again.name.val

theorem Declaration.FirstRepeated.not_nodup {decls : List (Declaration P)}
    {again first : Declaration P} (h : FirstRepeated decls again first) :
    ¬ (decls.map (·.name.val)).Nodup := by
  obtain ⟨before, after, rfl, _, hfirst, hname⟩ := h
  intro hnodup
  rw [List.map_append] at hnodup
  have hmem : again.name.val ∈ before.map (·.name.val) := hname ▸ List.mem_map_of_mem hfirst
  exact List.disjoint_of_nodup_append hnodup hmem List.mem_cons_self

namespace Source

/-- The names are distinct, or the first that is repeated is found. -/
theorem checkNames_cases (earlier decls : List (Declaration P))
    (hearlier : (earlier.map (·.name.val)).Nodup) :
    (((earlier ++ decls).map (·.name.val)).Nodup ∧
        checkNames (earlier.map (·.name)) decls = .ok ()) ∨
      ∃ again first, Declaration.FirstRepeated (earlier ++ decls) again first ∧
        checkNames (earlier.map (·.name)) decls =
          .error (.duplicateType again.name first.name.pos) := by
  -- The names that were seen are those of the declarations before, which are distinct.
  induction decls generalizing earlier with
  | nil => exact .inl ⟨by simpa using hearlier, rfl⟩
  | cons d decls ih =>
    rw [checkNames, List.find?_map]
    cases hfound : earlier.find? ((fun name => name.val == d.name.val) ∘ (·.name)) with
    | some first =>
      have hval : first.name.val = d.name.val := by simpa using List.find?_some hfound
      exact .inr ⟨d, first, ⟨earlier, decls, rfl, hearlier, List.mem_of_find?_eq_some hfound, hval⟩,
        rfl⟩
    | none =>
      have hnew : d.name.val ∉ earlier.map (·.name.val) := by
        simpa using List.find?_eq_none.mp hfound
      have hmore : ((earlier ++ [d]).map (·.name.val)).Nodup := by
        rw [List.map_append, List.map_singleton, ← List.concat_eq_append]
        exact hearlier.concat hnew
      simpa using ih (earlier ++ [d]) hmore

/-! ### One declaration -/

/-- The type of a declaration, or its fault with the name of the declaration. -/
def typeOf (schema : Schema) (defaults : Defaults) (s : Source P) (d : Declaration P) :
    Except (Fault P) Dto :=
  inDeclaration d (Dto.ofDeclaration schema defaults s.entity.val s.modifiers d)

/-- With distinct names, the declarations of a source are worked through one by one. -/
theorem compile_of_nodup {s : Source P} (hentity : (schema.entity? s.entity.val).isSome)
    (hnames : s.declarationNames.Nodup) :
    s.compile schema defaults = s.declarations.mapM (typeOf schema defaults s) := by
  have hcheck : checkNames [] s.declarations = .ok () := by
    rcases checkNames_cases [] s.declarations List.nodup_nil with
      ⟨_, hok⟩ | ⟨again, first, hrepeated, _⟩
    · exact hok
    · exact absurd hnames hrepeated.not_nodup
  rw [compile, if_neg (by simpa using Option.isSome_iff_ne_none.mp hentity), hcheck]
  rfl

theorem compile_alone {s : Source P} (hentity : (schema.entity? s.entity.val).isSome)
    (d : Declaration P) :
    (single s.entity s.modifiers d).compile schema defaults =
      (typeOf schema defaults s d).map ([·]) := by
  have hsingle : (single s.entity s.modifiers d).compile schema defaults =
      [d].mapM (typeOf schema defaults s) :=
    compile_of_nodup (s := single s.entity s.modifiers d) hentity (List.nodup_singleton d.name.val)
  rw [hsingle, List.mapM_cons]
  cases typeOf schema defaults s d <;> rfl

theorem compile_alone_eq_ok {s : Source P} (hentity : (schema.entity? s.entity.val).isSome)
    {d : Declaration P} {T : Dto} :
    (single s.entity s.modifiers d).compile schema defaults = .ok [T] ↔
      typeOf schema defaults s d = .ok T := by
  rw [compile_alone hentity]
  cases typeOf schema defaults s d <;> simp [Except.map]

theorem compile_alone_eq_error {s : Source P} (hentity : (schema.entity? s.entity.val).isSome)
    {d : Declaration P} {fault : Fault P} :
    (single s.entity s.modifiers d).compile schema defaults = .error fault ↔
      typeOf schema defaults s d = .error fault := by
  rw [compile_alone hentity]
  cases typeOf schema defaults s d <;> simp [Except.map]

/-! ### All declarations -/

theorem compile_of_unknown {s : Source P} (h : schema.entity? s.entity.val = none) :
    s.compile schema defaults = .error (.unknownEntity s.entity) := by
  rw [compile, h]
  rfl

theorem compile_of_repeated (defaults : Defaults) {s : Source P}
    (hentity : (schema.entity? s.entity.val).isSome) (hnames : ¬ s.declarationNames.Nodup) :
    ∃ again first, Declaration.FirstRepeated s.declarations again first ∧
      s.compile schema defaults = .error (.duplicateType again.name first.name.pos) := by
  rcases checkNames_cases [] s.declarations List.nodup_nil with
    ⟨hnodup, _⟩ | ⟨again, first, hrepeated, herror⟩
  · exact absurd hnodup hnames
  · refine ⟨again, first, hrepeated, ?_⟩
    rw [compile, if_neg (by simpa using Option.isSome_iff_ne_none.mp hentity)]
    exact congrArg (· >>= _) herror

theorem compile_eq_ok_iff_alone {s : Source P} {types : List Dto} :
    s.compile schema defaults = .ok types ↔
      (schema.entity? s.entity.val).isSome ∧ s.declarationNames.Nodup ∧
        List.Forall₂ (fun d T =>
          (single s.entity s.modifiers d).compile schema defaults = .ok [T])
          s.declarations types := by
  constructor
  · intro h
    cases hentity : schema.entity? s.entity.val with
    | none =>
      rw [compile_of_unknown hentity] at h
      cases h
    | some e =>
      have hentity := Option.isSome_of_mem hentity
      have hnames : s.declarationNames.Nodup := by
        by_contra hnot
        obtain ⟨_, _, _, herror⟩ := compile_of_repeated defaults hentity hnot
        rw [herror] at h
        cases h
      rw [compile_of_nodup hentity hnames] at h
      exact ⟨rfl, hnames, (forall₂_of_mapM_eq_ok h).imp fun d T hd =>
        (compile_alone_eq_ok hentity).mpr hd⟩
  · rintro ⟨hentity, hnames, hall⟩
    rw [compile_of_nodup hentity hnames]
    exact mapM_eq_ok_of_forall₂ (hall.imp fun d T hd => (compile_alone_eq_ok hentity).mp hd)

/-- **Declarations compile independently.** A source compiles to `types` exactly if its entity is
known, its declarations have distinct names, and each declaration alone, with the entity and the
modifiers of the source, compiles to the type in its place. Otherwise the source is refused: with
`E308` at the entity if that is unknown, or else with `E205` at the first name that is repeated, or
else with the fault of the first declaration that is refused alone. -/
theorem compile_independently (schema : Schema) (defaults : Defaults) (s : Source P) :
    (∀ types, s.compile schema defaults = .ok types ↔
      (schema.entity? s.entity.val).isSome ∧ s.declarationNames.Nodup ∧
        List.Forall₂ (fun d T =>
          (single s.entity s.modifiers d).compile schema defaults = .ok [T])
          s.declarations types) ∧
    (schema.entity? s.entity.val = none →
      ∃ fault, s.compile schema defaults = .error fault ∧ fault.code.text = "E308" ∧
        fault.marks.1.pos = s.entity.pos) ∧
    ((schema.entity? s.entity.val).isSome → ¬ s.declarationNames.Nodup →
      ∃ fault again first, Declaration.FirstRepeated s.declarations again first ∧
        s.compile schema defaults = .error fault ∧ fault.code.text = "E205" ∧
        fault.marks.1.pos = again.name.pos) ∧
    ((schema.entity? s.entity.val).isSome → s.declarationNames.Nodup →
      ∀ fault, s.compile schema defaults = .error fault ↔
        FirstFails (fun d fault =>
          (single s.entity s.modifiers d).compile schema defaults = .error fault)
          s.declarations fault) := by
  refine ⟨fun types => compile_eq_ok_iff_alone, fun hunknown => ?_, fun hentity hnames => ?_,
    fun hentity hnames fault => ?_⟩
  · exact ⟨_, compile_of_unknown hunknown, rfl, rfl⟩
  · obtain ⟨again, first, hrepeated, herror⟩ := compile_of_repeated defaults hentity hnames
    exact ⟨_, again, first, hrepeated, herror, rfl, rfl⟩
  · simp only [compile_alone_eq_error hentity, compile_of_nodup hentity hnames]
    exact ⟨firstFails_of_mapM_eq_error, mapM_eq_error_of_firstFails⟩

end Source

/-! ### An example

Three views of employees. An employee has neither a salary nor a desk. -/

namespace Company

/-- The declaration `name ⟨property⟩`. -/
def viewNamed (name property : Name) : Declaration Unit :=
  ⟨⟨name, ()⟩, [], [], ⟨[.plain ⟨⟨property, ()⟩, false, none, none⟩], ()⟩⟩

/-- A source with these declarations. -/
def viewsOf (entity : Name) (decls : List (Declaration Unit)) : Source Unit :=
  ⟨⟨entity, ()⟩, [], decls⟩

theorem views_compile_independently :
    (∃ card seat,
      (viewsOf "Employee" [viewNamed "Card" "id", viewNamed "Seat" "department"]).compile
        (SchemaStore.schema registry) {} = .ok [card, seat] ∧
      (viewsOf "Employee" [viewNamed "Seat" "department"]).compile
        (SchemaStore.schema registry) {} = .ok [seat]) ∧
    (∃ fault, (viewsOf "Employee" [viewNamed "Card" "id", viewNamed "Pay" "salary",
        viewNamed "Seat" "desk"]).compile (SchemaStore.schema registry) {} = .error fault ∧
      (viewsOf "Employee" [viewNamed "Pay" "salary"]).compile (SchemaStore.schema registry) {} =
        .error fault) ∧
    (∃ fault, (viewsOf "Employee" [viewNamed "Pay" "salary", viewNamed "Pay" "id"]).compile
        (SchemaStore.schema registry) {} = .error fault ∧ fault.code.text = "E205") ∧
    ∃ fault, (viewsOf "Client" [viewNamed "Pay" "salary"]).compile
        (SchemaStore.schema registry) {} = .error fault ∧ fault.code.text = "E308" := by
  have hrun (entity : Name) (decls : List (Declaration Unit)) :=
    Source.compile_independently (SchemaStore.schema registry) {} (viewsOf entity decls)
  refine ⟨?_, ?_, ?_, ?_⟩
  · exact ⟨_, _, ((hrun _ _).1 _).mpr ⟨rfl, by decide, .cons rfl (.cons rfl .nil)⟩, rfl⟩
  · refine ⟨_, ((hrun _ _).2.2.2 rfl (by decide) _).mpr ?_, rfl⟩
    refine .cons (fun fault h => ?_) (.head rfl)
    cases h
  · obtain ⟨fault, _, _, _, hfault, hcode, _⟩ :=
      (hrun "Employee" [viewNamed "Pay" "salary", viewNamed "Pay" "id"]).2.2.1 rfl (by decide)
    exact ⟨fault, hfault, hcode⟩
  · obtain ⟨fault, hfault, hcode, _⟩ := (hrun "Client" [viewNamed "Pay" "salary"]).2.1 rfl
    exact ⟨fault, hfault, hcode⟩

end Company

end Projection
