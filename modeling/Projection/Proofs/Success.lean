import Mathlib.Data.List.Forall2
import Projection.Binding

/-!
# Computations that succeed

Compilation is written with `Except`, where the first fault ends the work. What a result says about
the steps that led to it is the same everywhere: each step succeeded.
-/

namespace Projection

variable {ε α β : Type}

theorem map_eq_ok {x : Except ε α} {f : α → β} {b : β} :
    x.map f = .ok b ↔ ∃ a, x = .ok a ∧ f a = b := by
  cases x <;> simp [Except.map]

theorem eq_ok_of_toOption {x : Except ε α} {a : α} (h : x.toOption = some a) : x = .ok a := by
  cases x with
  | error e => cases h
  | ok b =>
    cases h
    rfl

theorem pure_eq_ok {a b : α} : (pure a : Except ε α) = .ok b ↔ a = b := by
  simp [pure, Except.pure]

/-- A list is worked through to its end only if every element succeeds, and the results stand in the
order of the elements. -/
theorem forall₂_of_mapM_eq_ok {f : α → Except ε β} {as : List α} {bs : List β}
    (h : as.mapM f = .ok bs) : List.Forall₂ (fun a b => f a = .ok b) as bs := by
  induction as generalizing bs with
  | nil =>
    rw [List.mapM_nil, pure_eq_ok] at h
    subst h
    exact .nil
  | cons a as ih =>
    simp only [List.mapM_cons, bind_eq_ok, pure_eq_ok] at h
    obtain ⟨b, hb, rest, hrest, rfl⟩ := h
    exact .cons hb (ih hrest)

theorem mapM_eq_ok_of_forall₂ {f : α → Except ε β} {as : List α} {bs : List β}
    (h : List.Forall₂ (fun a b => f a = .ok b) as bs) : as.mapM f = .ok bs := by
  induction h with
  | nil => rfl
  | cons hb _ ih =>
    rw [List.mapM_cons, hb, ih]
    rfl

/-- Each result comes from an element. -/
theorem exists_mem_of_forall₂ {R : α → β → Prop} {as : List α} {bs : List β}
    (h : List.Forall₂ R as bs) {b : β} (hb : b ∈ bs) : ∃ a ∈ as, R a b := by
  induction h with
  | nil => cases hb
  | cons hab _ ih =>
    rcases List.mem_cons.mp hb with rfl | hb
    · exact ⟨_, List.mem_cons_self, hab⟩
    · obtain ⟨a, ha, hR⟩ := ih hb
      exact ⟨a, List.mem_cons_of_mem _ ha, hR⟩

/-- Every element has a result exactly if all have results together. -/
theorem exists_forall₂_iff {R : α → β → Prop} {as : List α} :
    (∃ bs, List.Forall₂ R as bs) ↔ ∀ a ∈ as, ∃ b, R a b := by
  induction as with
  | nil => exact ⟨fun _ => List.forall_mem_nil _, fun _ => ⟨[], .nil⟩⟩
  | cons a as ih =>
    rw [List.forall_mem_cons, ← ih]
    constructor
    · rintro ⟨_, hbs⟩
      cases hbs with
      | cons hb hbs => exact ⟨⟨_, hb⟩, _, hbs⟩
    · rintro ⟨⟨b, hb⟩, bs, hbs⟩
      exact ⟨b :: bs, .cons hb hbs⟩

/-- What each result has from its element, all results have from all elements. -/
theorem map_eq_map_of_forall₂ {γ : Type} {R : α → β → Prop} {f : α → γ} {g : β → γ} {as : List α}
    {bs : List β} (h : List.Forall₂ R as bs) (hR : ∀ a b, R a b → f a = g b) :
    as.map f = bs.map g := by
  rw [← List.forall₂_eq_eq_eq, List.forall₂_map_left_iff, List.forall₂_map_right_iff]
  exact h.imp hR

/-- What the results of two elements have to do with each other, in the words of the elements. -/
theorem pairwise_iff_of_forall₂ {R : α → β → Prop} {S : α → α → Prop}
    {S' : β → β → Prop} {as : List α} {bs : List β} (h : List.Forall₂ R as bs)
    (hiff : ∀ a b a' b', R a b → R a' b' → (S a a' ↔ S' b b')) :
    as.Pairwise S ↔ bs.Pairwise S' := by
  induction h with
  | nil => simp
  | @cons a b as bs hab hrest ih =>
    rw [List.pairwise_cons, List.pairwise_cons, ih]
    refine and_congr_left fun _ => ⟨fun hall b' hb' => ?_, fun hall a' ha' => ?_⟩
    · obtain ⟨a', ha', hR⟩ := exists_mem_of_forall₂ hrest hb'
      exact (hiff a b a' b' hab hR).mp (hall a' ha')
    · obtain ⟨b', hb', hR⟩ := exists_mem_of_forall₂ hrest.flip ha'
      exact (hiff a b a' b' hab hR).mpr (hall b' hb')

/-- What is collected step by step comes from the steps. -/
theorem foldlM_collects {f : List β → α → Except ε (List β)} {collects : α → β → Prop} {as : List α}
    (h : ∀ a ∈ as, ∀ before, ∃ more, f before a = .ok (before ++ more) ∧
      ∀ b, b ∈ more ↔ collects a b) (before : List β) :
    ∃ more, as.foldlM f before = .ok (before ++ more) ∧
      ∀ b, b ∈ more ↔ ∃ a ∈ as, collects a b := by
  induction as generalizing before with
  | nil => exact ⟨[], by simp [pure, Except.pure], by simp⟩
  | cons a as ih =>
    obtain ⟨ha, has⟩ := List.forall_mem_cons.mp h
    obtain ⟨first, hfirst, hfirst_iff⟩ := ha before
    obtain ⟨rest, hrest, hrest_iff⟩ := ih has (before ++ first)
    refine ⟨first ++ rest, ?_, fun b => ?_⟩
    · rw [List.foldlM_cons, hfirst, ← List.append_assoc]
      exact hrest
    · rw [List.mem_append, hfirst_iff, hrest_iff, List.exists_mem_cons_iff]

/-! ### First failures -/

/-- Something fails for an element of a list and for none before it. -/
def FirstFails {α ε : Type} (fails : α → ε → Prop) (as : List α) (e : ε) : Prop :=
  ∃ before a after, as = before ++ a :: after ∧ (∀ b ∈ before, ∀ e', ¬ fails b e') ∧ fails a e

section FirstFails

variable {fails fails' : α → ε → Prop} {a : α} {as : List α} {e : ε}

theorem FirstFails.head (h : fails a e) : FirstFails fails (a :: as) e :=
  ⟨[], a, as, rfl, by simp, h⟩

theorem FirstFails.cons (ha : ∀ e', ¬ fails a e') (h : FirstFails fails as e) :
    FirstFails fails (a :: as) e := by
  obtain ⟨before, b, after, rfl, hbefore, hb⟩ := h
  exact ⟨a :: before, b, after, rfl, List.forall_mem_cons.mpr ⟨ha, hbefore⟩, hb⟩

theorem FirstFails.congr (hiff : ∀ a e, fails a e ↔ fails' a e) (h : FirstFails fails as e) :
    FirstFails fails' as e := by
  simpa only [FirstFails, hiff] using h

/-- A list that is not worked through to its end stops at the first element that fails. -/
theorem firstFails_of_mapM_eq_error {f : α → Except ε β} (h : as.mapM f = .error e) :
    FirstFails (fun a e => f a = .error e) as e := by
  induction as with
  | nil => cases h
  | cons a as ih =>
    rw [List.mapM_cons] at h
    cases hf : f a with
    | error e' =>
      rw [hf] at h
      cases h
      exact .head hf
    | ok b =>
      rw [hf] at h
      refine .cons (by simp [hf]) (ih ?_)
      cases hrest : as.mapM f with
      | error e' =>
        rw [hrest] at h
        exact h
      | ok bs =>
        rw [hrest] at h
        cases h

theorem mapM_eq_error_of_firstFails {f : α → Except ε β}
    (h : FirstFails (fun a e => f a = .error e) as e) : as.mapM f = .error e := by
  obtain ⟨before, a, after, rfl, hbefore, ha⟩ := h
  induction before with
  | nil =>
    rw [List.nil_append, List.mapM_cons, ha]
    rfl
  | cons b before ih =>
    rw [List.forall_mem_cons] at hbefore
    rw [List.cons_append, List.mapM_cons, ih hbefore.2]
    cases hb : f b with
    | error e' => exact absurd hb (hbefore.1 e')
    | ok b' => rfl

end FirstFails

end Projection
