import Mathlib.Data.List.Sort
import Projection.Proofs.Emitter.Paths

/-!
# Sorted paths

Paths are compared by their components, one after the other, and this is a linear order of component
lists (`Path.orderComponents`). `Path.sorted` puts paths in this order and keeps the first of those
that have the same place. The result increases strictly and has the same places as the list
(`Path.pairwise_sorted`, `Path.mem_components_sorted`), and there is only one such list of places
(`Path.components_sorted_eq`).
-/

namespace Projection

/-! ### The order -/

/-- The name of a component, if it has one. -/
def Component.text : Component → String
  | name s => s
  | _ => ""

/-- Components are compared by their kinds, then by their names. -/
theorem Component.order_eq :
    Component.order = compareLex (compareOn Component.ctorIdx) (compareOn Component.text) := by
  funext a b
  cases a <;> cases b <;> rfl

instance : Std.TransCmp Component.order :=
  Component.order_eq ▸ inferInstance

namespace Path

theorem orderComponents_eq : orderComponents = List.compareLex Component.order := by
  funext as bs
  induction as generalizing bs with
  | nil => cases bs <;> rfl
  | cons a as ih =>
    cases bs with
    | nil => rfl
    | cons b bs => rw [orderComponents, ih, List.compareLex_cons_cons]

instance : Std.TransCmp orderComponents :=
  orderComponents_eq ▸ inferInstance

instance : Std.TransCmp order where
  eq_swap := by
    intro p q
    unfold order
    exact Std.OrientedCmp.eq_swap
  isLE_trans := by
    intro p q r h h'
    unfold order at *
    exact Std.TransCmp.isLE_trans h h'

/-- The path comes before the other. -/
def Before (p q : Path) : Prop :=
  order p q = .lt

theorem Before.trans {p q r : Path} (h : p.Before q) (h' : q.Before r) : p.Before r :=
  Std.TransCmp.lt_trans h h'

/-! ### Sorting -/

/-- The paths are in order, paths of one place next to each other. -/
abbrev Ordered (paths : List Path) : Prop :=
  paths.Pairwise fun p q => (order p q).isLE = true

theorem ordered_mergeSort (paths : List Path) :
    Ordered (paths.mergeSort fun p q => (order p q).isLE) := by
  refine List.pairwise_mergeSort (fun p q r h h' => ?_) (fun p q => ?_) paths
  · exact Std.TransCmp.isLE_trans h h'
  · rw [Bool.or_eq_true, ← Std.OrientedCmp.isGE_iff_isLE (a := p)]
    cases order p q <;> decide

section Dedup

theorem mem_of_mem_dedupAfter {last p : Path} {paths : List Path} (h : p ∈ dedupAfter last paths) :
    p ∈ paths := by
  induction paths generalizing last with
  | nil => cases h
  | cons q rest ih =>
    rw [dedupAfter] at h
    split at h
    · exact List.mem_cons_of_mem q (ih h)
    · rcases List.mem_cons.mp h with rfl | h
      · exact List.mem_cons_self
      · exact List.mem_cons_of_mem q (ih h)

/-- The place of a path that is dropped is that of the last one that was kept. -/
theorem mem_components_dedupAfter (last : Path) (paths : List Path) (c : List Component) :
    c ∈ (last :: dedupAfter last paths).map components ↔ c ∈ (last :: paths).map components := by
  induction paths generalizing last with
  | nil => rfl
  | cons q rest ih =>
    rw [dedupAfter]
    split
    · rename_i heq
      rw [ih last]
      simp [(order_eq_iff last q).mp (eq_of_beq heq)]
    · rw [List.map_cons, List.mem_cons, ih q]
      simp only [List.map_cons, List.mem_cons]

theorem pairwise_dedupAfter {last : Path} {paths : List Path} (h : Ordered (last :: paths)) :
    (last :: dedupAfter last paths).Pairwise Before := by
  induction paths generalizing last with
  | nil => exact List.pairwise_singleton Before last
  | cons q rest ih =>
    obtain ⟨hlast, hrest⟩ := List.pairwise_cons.mp h
    rw [dedupAfter]
    split
    · refine ih (List.pairwise_cons.mpr ⟨fun r hr => ?_, hrest.of_cons⟩)
      exact hlast r (List.mem_cons_of_mem q hr)
    · rename_i hne
      have hbefore : last.Before q := by
        rcases Ordering.isLE_iff_eq_lt_or_eq_eq.mp (hlast q List.mem_cons_self) with hlt | heq
        · exact hlt
        · exact absurd (beq_iff_eq.mpr heq) hne
      have hkept := ih hrest
      refine .cons (List.forall_mem_cons.mpr ⟨hbefore, fun r hr => ?_⟩) hkept
      exact hbefore.trans ((List.pairwise_cons.mp hkept).1 r hr)

end Dedup

/-- Sorting makes up no paths. -/
theorem mem_of_mem_sorted {p : Path} {paths : List Path} (h : p ∈ sorted paths) : p ∈ paths := by
  refine (paths.mergeSort_perm fun p q => (order p q).isLE).mem_iff.mp ?_
  unfold sorted dedup at h
  split at h
  · cases h
  · rename_i first rest hsort
    rw [hsort]
    rcases List.mem_cons.mp h with rfl | h
    · exact List.mem_cons_self
    · exact List.mem_cons_of_mem first (mem_of_mem_dedupAfter h)

/-- Sorting loses no place. -/
theorem mem_components_sorted (paths : List Path) (c : List Component) :
    c ∈ (sorted paths).map components ↔ c ∈ paths.map components := by
  have hperm := (paths.mergeSort_perm fun p q => (order p q).isLE).map components
  rw [← hperm.mem_iff, sorted]
  cases paths.mergeSort fun p q => (order p q).isLE with
  | nil => rfl
  | cons first rest => exact mem_components_dedupAfter first rest c

/-- Sorted paths increase strictly. -/
theorem pairwise_sorted (paths : List Path) : (sorted paths).Pairwise Before := by
  have hordered := ordered_mergeSort paths
  rw [sorted]
  cases hsort : paths.mergeSort fun p q => (order p q).isLE with
  | nil => exact .nil
  | cons first rest =>
    rw [hsort] at hordered
    exact pairwise_dedupAfter hordered

/-- **Only the places in a list decide how it is sorted.** -/
theorem components_sorted_eq {paths paths' : List Path}
    (h : ∀ c, c ∈ paths'.map components ↔ c ∈ paths.map components) :
    (sorted paths').map components = (sorted paths).map components := by
  have hirrefl : Std.Irrefl fun a b : List Component => orderComponents a b = .lt :=
    ⟨fun a => by simp [Std.ReflCmp.compare_self]⟩
  have hantisymm : Std.Antisymm fun a b : List Component => orderComponents a b = .lt := by
    refine ⟨fun a b h h' => ?_⟩
    have hgt : orderComponents b a = .gt := Std.OrientedCmp.gt_iff_lt.mpr h
    cases h'.symm.trans hgt
  have hpairwise (paths : List Path) :
      ((sorted paths).map components).Pairwise fun a b => orderComponents a b = .lt :=
    List.pairwise_map.mpr (pairwise_sorted paths)
  refine (hpairwise paths').eq_of_mem_iff (hpairwise paths) fun c => ?_
  rw [mem_components_sorted, mem_components_sorted, h]

end Path

end Projection
