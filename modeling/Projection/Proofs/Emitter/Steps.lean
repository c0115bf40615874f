import Projection.Emitter
import Projection.Proofs.FileTree.Changes

/-!
# Steps of emission

`Workspace.Emits` lists the ways in which the emission of one job can end, with what each leaves. In
all of them the emitter goes on to the same directory, and the file tree changes in the directories
on the way there and in the file of the job, at most. Emission in sequence therefore changes the
files of its jobs and the directories above them.
-/

namespace Projection

/-- The emitter with one more path taken. -/
def Emitter.take (e : Emitter) (path : Path) : Emitter :=
  { e with written := e.written ++ [path] }

/-- The file of a job, by its place and content. -/
def Emitter.Outputs (e : Emitter) (tree : FileTree) (job : Job) (place : List String)
    (content : ByteArray) : Prop :=
  place = tree.placeOf (e.pathOf job.dto) ∧ content = (e.textOf job).toUTF8

/-- The files of jobs. -/
def Emitter.OutputsAny (e : Emitter) (tree : FileTree) (jobs : List (Except EmitFault Job))
    (place : List String) (content : ByteArray) : Prop :=
  ∃ job, .ok job ∈ jobs ∧ e.Outputs tree job place content

namespace Workspace

open FileTree (Changes)

/-- How the emission of a job ends. -/
inductive Emits (w : Workspace) (job : Job) : Except EmitFault Unit → Workspace → Prop
  | collision : w.hasWritten (w.emitter.pathOf job.dto) = true →
      Emits w job (.error (.collision (w.emitter.pathOf job.dto))) w
  | noDirectory {fault : FileFault} {tree : FileTree} :
      w.hasWritten (w.emitter.pathOf job.dto) = false →
      w.tree.makeDirs w.emitter.directory = (.error fault, tree) →
      Emits w job (.error (.unwritable w.emitter.directory fault))
        ⟨w.emitter.take (w.emitter.pathOf job.dto), tree⟩
  | noFile {fault : FileFault} {tree : FileTree} :
      w.hasWritten (w.emitter.pathOf job.dto) = false →
      w.tree.makeDirs w.emitter.directory = (.ok (), tree) →
      tree.write (w.emitter.pathOf job.dto) (w.emitter.textOf job).toUTF8 = .error fault →
      Emits w job (.error (.unwritable (w.emitter.pathOf job.dto) fault))
        ⟨w.emitter.take (w.emitter.pathOf job.dto), tree⟩
  | written {made tree : FileTree} :
      w.hasWritten (w.emitter.pathOf job.dto) = false →
      w.tree.makeDirs w.emitter.directory = (.ok (), made) →
      made.write (w.emitter.pathOf job.dto) (w.emitter.textOf job).toUTF8 = .ok tree →
      Emits w job (.ok ()) ⟨w.emitter.take (w.emitter.pathOf job.dto), tree⟩

theorem emits (w : Workspace) (job : Job) : Emits w job (w.emit job).1 (w.emit job).2 := by
  simp only [emit]
  split
  · rename_i htaken
    exact .collision htaken
  · rename_i htaken
    have hfree := eq_false_of_ne_true htaken
    split
    · rename_i hdirs
      exact .noDirectory hfree hdirs
    · rename_i hdirs
      split
      · rename_i hwrite
        exact .noFile hfree hdirs hwrite
      · rename_i hwrite
        exact .written hfree hdirs hwrite

variable {w after : Workspace} {job : Job} {result : Except EmitFault Unit}

theorem Emits.directory (h : Emits w job result after) :
    after.emitter.directory = w.emitter.directory := by
  cases h <;> rfl

theorem Emits.entityModule (h : Emits w job result after) :
    after.emitter.entityModule = w.emitter.entityModule := by
  cases h <;> rfl

/-- One job changes its file and the directories above it, at most. -/
theorem Emits.changes (h : Emits w job result after) :
    Changes (w.tree.OnTheWay w.emitter.directory) (w.emitter.Outputs w.tree job) w.tree
      after.tree := by
  have hmade : Changes (w.tree.OnTheWay w.emitter.directory) (w.emitter.Outputs w.tree job) w.tree
      (w.tree.makeDirs w.emitter.directory).2 :=
    FileTree.changes_makeDirs w.tree w.emitter.directory
  cases h with
  | collision => exact .refl w.tree.toListing
  | noDirectory _ hdirs =>
    rw [hdirs] at hmade
    exact hmade
  | noFile _ hdirs _ =>
    rw [hdirs] at hmade
    exact hmade
  | written _ hdirs hwrite =>
    rw [hdirs] at hmade
    exact hmade.trans (FileTree.changes_write hwrite ⟨hmade.placeOf_eq _, rfl⟩)

/-- The file of a job is the same before and after another was emitted. -/
theorem Emits.outputs_iff (h : Emits w job result after) (other : Job) (place : List String)
    (content : ByteArray) :
    after.emitter.Outputs after.tree other place content ↔
      w.emitter.Outputs w.tree other place content := by
  have hpath : after.emitter.pathOf other.dto = w.emitter.pathOf other.dto := by
    rw [Emitter.pathOf, Emitter.pathOf, h.directory]
  have htext : after.emitter.textOf other = w.emitter.textOf other := by
    rw [Emitter.textOf, Emitter.textOf, h.entityModule]
  rw [Emitter.Outputs, Emitter.Outputs, hpath, htext, h.changes.placeOf_eq]

/-- Emission in sequence changes the files of its jobs and the directories above them, at most, also
if it stops at a fault. -/
theorem changes_emitAll (w : Workspace) (jobs : List (Except EmitFault Job)) :
    Changes (w.tree.OnTheWay w.emitter.directory) (w.emitter.OutputsAny w.tree jobs) w.tree
      (w.emitAll jobs).2.tree := by
  induction jobs generalizing w with
  | nil => exact .refl w.tree.toListing
  | cons next jobs ih =>
    cases next with
    | error fault => exact .refl w.tree.toListing
    | ok job =>
      have hemits := w.emits job
      have hfirst : Changes (w.tree.OnTheWay w.emitter.directory)
          (w.emitter.OutputsAny w.tree (.ok job :: jobs)) w.tree (w.emit job).2.tree :=
        hemits.changes.mono (fun _ hdir => hdir)
          fun _ _ houtputs => ⟨job, List.mem_cons_self, houtputs⟩
      rw [emitAll]
      split
      · rename_i hemit
        rw [hemit] at hfirst
        exact hfirst
      · rename_i between hemit
        rw [hemit] at hfirst hemits
        -- The rest starts from another tree, where all paths have the places that they had.
        have hrest : Changes (w.tree.OnTheWay w.emitter.directory)
            (w.emitter.OutputsAny w.tree (.ok job :: jobs)) between.tree
            (between.emitAll jobs).2.tree := by
          refine (ih between).mono (fun place hdir => ?_) fun place content houtputs => ?_
          · rw [hemits.directory] at hdir
            exact (hfirst.onTheWay_iff _ place).mp hdir
          · obtain ⟨other, hother, houtputs⟩ := houtputs
            exact ⟨other, List.mem_cons_of_mem _ hother,
              (hemits.outputs_iff other place content).mp houtputs⟩
        have hall := hfirst.trans hrest
        split <;>
        · rename_i hemitAll
          rw [hemitAll] at hall
          exact hall

end Workspace

end Projection
