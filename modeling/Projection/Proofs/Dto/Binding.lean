import Projection.Proofs.Dto.Distinct

/-!
# When selections can be bound

`Property.ofSelections` binds the selections of a type one after the other and stops at the first
that reads or puts out something twice. Whether it reaches the end does not depend on the order of
these checks: the selections can be bound exactly if each of them can be on its own, no two of them
have one name, and no two that were written out read one attribute in one way
(`Property.ofSelections_eq_ok_iff`).

What a declaration compiles to arises from it (`Dto.Arises`), and what arises from it is what it
compiles to (`Dto.Arises.ofDeclaration`). The results about whole bodies go through these two.
-/

namespace Projection

variable {P : Type} {schema : Schema} {traits : Traits} {mutable : Bool}

/-! ### Properties -/

namespace Property

namespace Taken

variable {taken : Taken P} {pick : Pick P}

theorem checkOutput_of_not_mem (h : pick.name ∉ taken.outputs.map (·.val)) (type : Name) :
    taken.checkOutput type pick = .ok () := by
  unfold checkOutput
  rw [Located.find?_val_eq_none.mpr h]

theorem checkOrigin_of_not_mem
    (h : ∀ origin, pick.origin = some origin → origin ∉ taken.origins.map (·.val)) :
    taken.checkOrigin pick = .ok () := by
  unfold checkOrigin origin?
  by_cases hexplicit : pick.explicit = true
  · have hnone := Located.find?_val_eq_none.mpr (h _ (if_pos hexplicit))
    rw [if_pos hexplicit, Option.bind_some, hnone]
  · rw [if_neg hexplicit]
    rfl

end Taken

/-- Selections are bound if each can be on its own and nothing is taken twice. -/
theorem ofSelections_of_forall₂ (type : Name) {taken : Taken P} {selections : List (Selection P)}
    {properties : List Property}
    (hof : List.Forall₂ (fun s p => ofSelection schema traits mutable s = .ok p) selections
      properties)
    (hnames : (taken.outputs.map (·.val) ++ selections.map Selection.name).Nodup)
    (horigins : (taken.origins.map (·.val) ++ selections.filterMap (·.pick.origin)).Nodup) :
    ofSelections schema traits mutable type taken selections = .ok properties := by
  -- What is taken grows by what leaves the selections, so the two together stay the same.
  induction hof generalizing taken with
  | nil => rfl
  | @cons s p selections properties hp _ ih =>
    have hname : s.pick.name ∉ taken.outputs.map (·.val) := by
      intro hmem
      exact List.disjoint_of_nodup_append hnames hmem List.mem_cons_self
    have horigin : ∀ origin, s.pick.origin = some origin →
        origin ∉ taken.origins.map (·.val) := by
      intro origin hsome hmem
      exact List.disjoint_of_nodup_append horigins hmem
        (List.mem_filterMap.mpr ⟨s, List.mem_cons_self, hsome⟩)
    have hrest : ofSelections schema traits mutable type (taken.add s.pick) selections =
        .ok properties := by
      apply ih
      · simpa [Taken.add, Selection.name] using hnames
      · rw [Taken.map_val_add_origins, List.append_assoc]
        cases hpick : s.pick.origin with
        | none => simpa [hpick] using horigins
        | some origin => simpa [hpick] using horigins
    rw [ofSelections, Taken.checkOrigin_of_not_mem horigin, hp,
      Taken.checkOutput_of_not_mem hname, hrest]
    rfl

/-- **Selections can be bound exactly if** each of them can be on its own, their names are distinct,
and so is what the written ones read. -/
theorem ofSelections_eq_ok_iff {type : Name} {selections : List (Selection P)}
    {properties : List Property} :
    ofSelections schema traits mutable type {} selections = .ok properties ↔
      List.Forall₂ (fun s p => ofSelection schema traits mutable s = .ok p) selections
          properties ∧
        (selections.map Selection.name).Nodup ∧ (selections.filterMap (·.pick.origin)).Nodup := by
  constructor
  · intro h
    exact ⟨forall₂_of_ofSelections h, nodup_of_ofSelections_empty h⟩
  · rintro ⟨hof, hnames, horigins⟩
    exact ofSelections_of_forall₂ type hof hnames horigins

theorem exists_ofSelections_iff {type : Name} {selections : List (Selection P)} :
    (∃ properties, ofSelections schema traits mutable type {} selections = .ok properties) ↔
      (∀ s ∈ selections, ∃ p, ofSelection schema traits mutable s = .ok p) ∧
        (selections.map Selection.name).Nodup ∧ (selections.filterMap (·.pick.origin)).Nodup := by
  simp only [ofSelections_eq_ok_iff, exists_and_right]
  rw [exists_forall₂_iff]

end Property

/-! ### Declarations -/

section Declarations

variable {defaults : Defaults} {entity : Name} {shared : List (Located P Modifier)}
  {decl : Declaration P} {d : Dto}

theorem Dto.Arises.ofDeclaration {selections : List (Selection P)}
    (h : Dto.Arises schema defaults entity shared decl selections d) :
    Dto.ofDeclaration schema defaults entity shared decl = .ok d := by
  obtain ⟨⟨_, _, traits, mutable⟩, tags, mutability, properties, users⟩ := d
  obtain ⟨hselected, rfl, rfl, htraits, rfl, hmutability, hmutable, hproperties, husers⟩ := h
  obtain rfl : mutable = mutability.resolve defaults.mutable := hmutable
  simp only [Dto.ofDeclaration, bind_eq_ok, pure_eq_ok]
  exact ⟨selections, hselected, traits, htraits, mutability, hmutability, properties, hproperties,
    users, husers, rfl⟩

end Declarations

end Projection
