import Projection.Proofs.Emitter.Paths
import Projection.Proofs.Emitter.Steps

/-!
# Emission in sequence

Jobs are emitted one after the other, and what a job finds is what the jobs before it have left
(`Workspace.emitAll_append`). After emission without a fault, the paths of all jobs are taken, each
once (`Workspace.wrote_of_emitAll`), and their files have the texts of their jobs, because no later
job has the place of an earlier one (`Workspace.get_of_emitAll`). A job whose path is taken ends
emission and leaves everything as it is (`Workspace.emitAll_collision`).
-/

namespace Projection.Workspace

open FileTree (Changes)

/-! ### One job -/

section Step

variable {w after : Workspace} {job : Job} {result : Except EmitFault Unit}

theorem hasWritten_iff {path : Path} :
    w.hasWritten path = true ↔ ∃ q ∈ w.emitter.written, path.components = q.components := by
  simp [hasWritten, Path.order_eq_iff]

theorem Emits.ne_unknownEntity (h : Emits w job result after) (entity : Name) :
    result ≠ .error (.unknownEntity entity) := by
  cases h <;> exact nofun

/-- What a job leaves that was emitted without a fault. -/
theorem Emits.wrote (h : Emits w job (.ok ()) after) :
    w.hasWritten (w.emitter.pathOf job.dto) = false ∧
      after.emitter = w.emitter.take (w.emitter.pathOf job.dto) ∧
      after.tree.get (w.emitter.pathOf job.dto) = .ok (.file (w.emitter.textOf job).toUTF8) := by
  cases h with
  | written hfree _ hwrite => exact ⟨hfree, rfl, FileTree.get_of_write hwrite⟩

theorem emit_eq_ok (h : w.emit job = (.ok (), after)) : Emits w job (.ok ()) after := by
  have hemits := w.emits job
  rw [h] at hemits
  exact hemits

theorem emit_of_hasWritten (h : w.hasWritten (w.emitter.pathOf job.dto) = true) :
    w.emit job = (.error (.collision (w.emitter.pathOf job.dto)), w) := by
  rw [emit]
  exact if_pos h

end Step

/-! ### Jobs one after the other -/

section Sequence

variable {w after : Workspace} {jobs : List Job} {n : Nat}

/-- Emission goes on after the first jobs unless one of them fails. -/
theorem emitAll_append (w : Workspace) (first second : List (Except EmitFault Job)) :
    w.emitAll (first ++ second) =
      match w.emitAll first with
      | (.error fault, between) => (.error fault, between)
      | (.ok n, between) =>
        ((between.emitAll second).1.map (n + ·), (between.emitAll second).2) := by
  induction first generalizing w with
  | nil =>
    rcases hsecond : w.emitAll second with ⟨fault | n, after⟩ <;>
      simp [emitAll, Except.map, hsecond]
  | cons next first ih =>
    cases next with
    | error fault => rfl
    | ok job =>
      rw [List.cons_append, emitAll, emitAll]
      rcases w.emit job with ⟨fault | _, between⟩
      · rfl
      · simp only [ih between]
        rcases between.emitAll first with ⟨fault | n, final⟩
        · rfl
        · dsimp only
          rcases final.emitAll second with ⟨fault | m, last⟩
          · rfl
          · simp [Except.map, Nat.add_right_comm]

theorem emitAll_ne_unknownEntity (w : Workspace) (jobs : List Job) (entity : Name) :
    (w.emitAll (jobs.map .ok)).1 ≠ .error (.unknownEntity entity) := by
  induction jobs generalizing w with
  | nil =>
    intro h
    cases h
  | cons job jobs ih =>
    have hemits := w.emits job
    rw [List.map_cons, emitAll]
    split
    · rename_i fault _ hemit
      rw [hemit] at hemits
      intro h
      cases h
      exact hemits.ne_unknownEntity entity rfl
    · rename_i between _
      have hrest := ih between
      split <;> rename_i hemitAll
      · intro h
        cases h
      · rw [hemitAll] at hrest
        exact hrest

/-- What emission without a fault goes through: the first job, then the others. -/
theorem emitAll_cons_eq_ok {job : Job} {rest : List (Except EmitFault Job)}
    (h : w.emitAll (.ok job :: rest) = (.ok n, after)) :
    ∃ between m, Emits w job (.ok ()) between ∧ between.emitAll rest = (.ok m, after) ∧
      n = m + 1 := by
  rw [emitAll] at h
  split at h
  · cases h
  · rename_i between hemit
    split at h
    · rename_i m final hrest
      cases h
      exact ⟨between, m, emit_eq_ok hemit, hrest, rfl⟩
    · cases h

/-- Emission without a fault counts the jobs, and takes their paths in order. -/
theorem wrote_of_emitAll (h : w.emitAll (jobs.map .ok) = (.ok n, after)) :
    n = jobs.length ∧ after.emitter =
      { w.emitter with written := w.emitter.written ++ jobs.map (w.emitter.pathOf ·.dto) } := by
  induction jobs generalizing w n with
  | nil =>
    cases h
    exact ⟨rfl, by rw [List.map_nil, List.append_nil]⟩
  | cons job jobs ih =>
    obtain ⟨between, m, hemits, hrest, rfl⟩ := emitAll_cons_eq_ok h
    obtain ⟨rfl, hafter⟩ := ih hrest
    obtain ⟨_, hbetween, _⟩ := hemits.wrote
    refine ⟨rfl, ?_⟩
    rw [hafter, hbetween]
    simp [Emitter.take, Emitter.pathOf]

/-- Jobs that are emitted without a fault have paths that were free, and no two have the same. -/
theorem pairwise_of_emitAll (h : w.emitAll (jobs.map .ok) = (.ok n, after)) :
    (∀ job ∈ jobs, w.hasWritten (w.emitter.pathOf job.dto) = false) ∧
      jobs.Pairwise fun job other =>
        (w.emitter.pathOf job.dto).components ≠ (w.emitter.pathOf other.dto).components := by
  induction jobs generalizing w n with
  | nil => exact ⟨nofun, .nil⟩
  | cons job jobs ih =>
    obtain ⟨between, m, hemits, hrest, rfl⟩ := emitAll_cons_eq_ok h
    obtain ⟨hfree, hbetween, _⟩ := hemits.wrote
    obtain ⟨hlater, hpairwise⟩ := ih hrest
    have hpath : ∀ d, between.emitter.pathOf d = w.emitter.pathOf d := fun d => by
      rw [hbetween]
      rfl
    simp only [hpath] at hlater hpairwise
    -- What is free for the later jobs was free, and is not the path of the first.
    have htaken : ∀ path, between.hasWritten path = false → w.hasWritten path = false ∧
        (w.emitter.pathOf job.dto).components ≠ path.components := by
      intro path hpath
      rw [← Bool.not_eq_true, hasWritten_iff, hbetween] at hpath
      rw [← Bool.not_eq_true, hasWritten_iff]
      exact ⟨fun ⟨q, hq, heq⟩ => hpath ⟨q, List.mem_append_left _ hq, heq⟩,
        fun heq => hpath ⟨_, List.mem_append_right _ (List.mem_singleton.mpr rfl), heq.symm⟩⟩
    refine ⟨List.forall_mem_cons.mpr ⟨hfree, fun other hother => ?_⟩, .cons (fun other hother => ?_)
      hpairwise⟩
    · exact (htaken _ (hlater other hother)).1
    · exact (htaken _ (hlater other hother)).2

/-- The files of jobs that are emitted without a fault have the texts of their jobs afterwards. -/
theorem get_of_emitAll (hwords : ∀ job ∈ jobs, job.dto.name.toList.all Token.isWordChar = true)
    (h : w.emitAll (jobs.map .ok) = (.ok n, after)) {job : Job} (hjob : job ∈ jobs) :
    after.tree.get (w.emitter.pathOf job.dto) = .ok (.file (w.emitter.textOf job).toUTF8) := by
  induction jobs generalizing w n with
  | nil => cases hjob
  | cons first jobs ih =>
    obtain ⟨hdiffer, _⟩ := List.pairwise_cons.mp (pairwise_of_emitAll h).2
    obtain ⟨hfirst, hlater⟩ := List.forall_mem_cons.mp hwords
    obtain ⟨between, m, hemits, hrest, rfl⟩ := emitAll_cons_eq_ok h
    obtain ⟨_, hbetween, hget⟩ := hemits.wrote
    rcases List.mem_cons.mp hjob with rfl | hjob
    · -- The file is there after the first job, and the later jobs change other places.
      have hchanges := changes_emitAll between (jobs.map .ok)
      rw [hrest] at hchanges
      refine hchanges.get_eq_ok hget (Classical.byContradiction fun hplace => ?_)
      rcases hchanges.changed _ hplace with ⟨hnone, _, _⟩ | ⟨_, content, _, other, hother, hsame, _⟩
      · have hfound := Listing.find?_of_get hget
        rw [hnone] at hfound
        cases hfound
      · -- A later job with the same place would have the same path.
        obtain ⟨other', hother', heq⟩ := List.mem_map.mp hother
        cases heq
        have hword := hlater other hother'
        rw [hbetween] at hsame
        have hname := (w.emitter.placeOf_pathOf_iff between.tree hfirst hword).mp hsame
        exact hdiffer other hother' ((w.emitter.components_pathOf_iff hfirst hword).mpr hname)
    · have hget' := ih hlater hrest hjob
      rw [hbetween] at hget'
      exact hget'

theorem emitAll_collision {first second : Job} (hfirst : first ∈ jobs)
    (hsame : (w.emitter.pathOf first.dto).components = (w.emitter.pathOf second.dto).components)
    (later : List (Except EmitFault Job)) :
    (∃ fault, (w.emitAll (jobs.map .ok ++ .ok second :: later)).1 = .error fault) ∧
      (w.emitAll (jobs.map .ok ++ .ok second :: later)).2 = (w.emitAll (jobs.map .ok)).2 := by
  rw [emitAll_append]
  rcases hjobs : w.emitAll (jobs.map .ok) with ⟨fault | n, between⟩
  · exact ⟨⟨fault, rfl⟩, rfl⟩
  · obtain ⟨_, hbetween⟩ := wrote_of_emitAll hjobs
    have hpath : ∀ d, between.emitter.pathOf d = w.emitter.pathOf d := fun d => by
      rw [hbetween]
      rfl
    have htaken : between.hasWritten (between.emitter.pathOf second.dto) = true := by
      rw [hasWritten_iff, hpath, hbetween]
      exact ⟨_, List.mem_append_right _ (List.mem_map_of_mem hfirst), hsame.symm⟩
    have hlast : between.emitAll (.ok second :: later) =
        (.error (.collision (between.emitter.pathOf second.dto)), between) := by
      rw [emitAll, emit_of_hasWritten htaken]
    dsimp only
    rw [hlast]
    exact ⟨⟨_, rfl⟩, rfl⟩

end Sequence

end Projection.Workspace
