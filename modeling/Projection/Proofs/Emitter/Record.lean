import Projection.Proofs.Emitter.Sequence

/-!
# What an emitter remembers

An emitter may be called again after a call that failed. `Emitter.run` makes calls one after the
other, each on the file tree as it is found at that moment, and notes the path of each call and how
it ended. What the emitter remembers afterwards are the paths of all calls, also of those that wrote
nothing (`Emitter.Logs.has`), and a call collides exactly if there was one for its path before
(`Emitter.Logs.collided`). So the record tells which files were written only as long as no call
fails to write: a path that could not be written counts as taken, and stays so.
-/

namespace Projection

/-! ### Calls -/

/-- A call of an emitter: the path that it was for, and how it ended. -/
structure Attempt where
  path : Path
  result : Except EmitFault Unit

namespace Attempt

/-- The call was for this path. -/
def IsFor (a : Attempt) (path : Path) : Prop :=
  path.components = a.path.components

instance (a : Attempt) (path : Path) : Decidable (a.IsFor path) :=
  inferInstanceAs (Decidable (path.components = a.path.components))

/-- The file was written. -/
def Succeeded (a : Attempt) : Prop :=
  a.result = .ok ()

/-- The path was taken. -/
def Collided (a : Attempt) : Prop :=
  ∃ path, a.result = .error (.collision path)

/-- The directory could not be made, or the file could not be written. -/
def Failed (a : Attempt) : Prop :=
  ∃ path fault, a.result = .error (.unwritable path fault)

variable {a : Attempt}

theorem Succeeded.not_collided (h : a.Succeeded) : ¬ a.Collided := by
  rintro ⟨_, hcollision⟩
  cases h.symm.trans hcollision

theorem Failed.not_collided (h : a.Failed) : ¬ a.Collided := by
  obtain ⟨_, _, hfault⟩ := h
  rintro ⟨_, hcollision⟩
  cases hfault.symm.trans hcollision

theorem Failed.not_succeeded (h : a.Failed) : ¬ a.Succeeded := by
  obtain ⟨_, _, hfault⟩ := h
  intro hok
  cases hfault.symm.trans hok

end Attempt

namespace Emitter

/-- Calls for jobs, each on the tree that it finds, with what is left of the emitter. -/
def run (e : Emitter) : List (FileTree × Job) → List Attempt × Emitter
  | [] => ([], e)
  | (tree, job) :: calls =>
    let (result, after) := Workspace.emit ⟨e, tree⟩ job
    let (attempts, last) := after.emitter.run calls
    (⟨e.pathOf job.dto, result⟩ :: attempts, last)

/-- The emitter remembers the path. -/
def Has (e : Emitter) (path : Path) : Prop :=
  ∃ q ∈ e.written, path.components = q.components

theorem has_take (e : Emitter) (taken path : Path) :
    (e.take taken).Has path ↔ e.Has path ∨ path.components = taken.components := by
  simp [Has, take, or_and_right, exists_or]

/-- How one call ends, and what it leaves: `e.Notes a after`. -/
structure Notes (e : Emitter) (a : Attempt) (after : Emitter) : Prop where
  has : ∀ path, after.Has path ↔ e.Has path ∨ a.IsFor path
  collided : a.Collided ↔ e.Has a.path
  ended : a.Succeeded ∨ a.Collided ∨ a.Failed

/-- How calls end, and what they leave: `e.Logs attempts after`. -/
structure Logs (e : Emitter) (attempts : List Attempt) (after : Emitter) : Prop where
  has : ∀ path, after.Has path ↔ e.Has path ∨ ∃ a ∈ attempts, a.IsFor path
  collided : ∀ before (a : Attempt) later, attempts = before ++ a :: later →
    (a.Collided ↔ e.Has a.path ∨ ∃ b ∈ before, b.IsFor a.path)
  ended : ∀ a ∈ attempts, a.Succeeded ∨ a.Collided ∨ a.Failed

/-! ### One call after the other -/

/-- A path that was free is taken, whether or not its file is written. -/
theorem notes_take {e : Emitter} {a : Attempt} (hfree : ¬ e.Has a.path)
    (hended : a.Succeeded ∨ a.Failed) : e.Notes a (e.take a.path) := by
  have hnot : ¬ a.Collided := by
    rcases hended with hok | hfailed
    · exact hok.not_collided
    · exact hfailed.not_collided
  refine ⟨fun path => has_take e a.path path, ⟨fun h => absurd h hnot, fun h => absurd h hfree⟩, ?_⟩
  rcases hended with hok | hfailed
  · exact .inl hok
  · exact .inr (.inr hfailed)

/-- A path that was taken stays so. -/
theorem notes_collision {e : Emitter} {a : Attempt} (htaken : e.Has a.path) (hended : a.Collided) :
    e.Notes a e := by
  refine ⟨fun path => ⟨.inl, ?_⟩, iff_of_true hended htaken, .inr (.inl hended)⟩
  rintro (hpath | hpath)
  · exact hpath
  · obtain ⟨q, hq, heq⟩ := htaken
    exact ⟨q, hq, hpath.trans heq⟩

end Emitter

theorem Workspace.Emits.notes {w after : Workspace} {job : Job} {result : Except EmitFault Unit}
    (h : Emits w job result after) :
    w.emitter.Notes ⟨w.emitter.pathOf job.dto, result⟩ after.emitter := by
  have hfree (hwritten : w.hasWritten (w.emitter.pathOf job.dto) = false) :
      ¬ w.emitter.Has (w.emitter.pathOf job.dto) := by
    rwa [← Bool.not_eq_true, hasWritten_iff] at hwritten
  cases h with
  | collision htaken => exact Emitter.notes_collision (hasWritten_iff.mp htaken) ⟨_, rfl⟩
  | noDirectory hwritten _ => exact Emitter.notes_take (hfree hwritten) (.inr ⟨_, _, rfl⟩)
  | noFile hwritten _ _ => exact Emitter.notes_take (hfree hwritten) (.inr ⟨_, _, rfl⟩)
  | written hwritten _ _ => exact Emitter.notes_take (hfree hwritten) (.inl rfl)

namespace Emitter.Logs

variable {e between after : Emitter} {a b : Attempt} {attempts : List Attempt}

theorem nil (e : Emitter) : e.Logs [] e where
  has := by simp
  collided := by simp
  ended := by simp

theorem cons (h : e.Notes a between) (h' : between.Logs attempts after) :
    e.Logs (a :: attempts) after := by
  refine ⟨fun path => ?_, fun before b later hsplit => ?_, ?_⟩
  · rw [h'.has, h.has, List.exists_mem_cons_iff, or_assoc]
  · cases before with
    | nil =>
      obtain ⟨rfl, _⟩ := List.cons.inj hsplit
      simpa using h.collided
    | cons first before =>
      obtain ⟨rfl, hrest⟩ := List.cons.inj hsplit
      rw [h'.collided before b later hrest, h.has, List.exists_mem_cons_iff, or_assoc]
  · exact List.forall_mem_cons.mpr ⟨h.ended, h'.ended⟩

end Emitter.Logs

theorem Emitter.logs_run (e : Emitter) (calls : List (FileTree × Job)) :
    e.Logs (e.run calls).1 (e.run calls).2 := by
  induction calls generalizing e with
  | nil => exact .nil e
  | cons call calls ih =>
    obtain ⟨tree, job⟩ := call
    exact .cons (Workspace.emits ⟨e, tree⟩ job).notes (ih _)

/-! ### A new emitter -/

namespace Emitter.Logs

variable {directory : Path} {entityModule : String} {after : Emitter} {a b : Attempt}
  {attempts before later : List Attempt}

/-- All calls are remembered. -/
theorem has_iff (h : Logs ⟨directory, entityModule, []⟩ attempts after) (path : Path) :
    after.Has path ↔ ∃ a ∈ attempts, a.IsFor path := by
  rw [h.has, or_iff_right]
  simp [Has]

/-- A call collides if there was one for its path before, written or not. -/
theorem collided_iff (h : Logs ⟨directory, entityModule, []⟩ attempts after)
    (hsplit : attempts = before ++ a :: later) : a.Collided ↔ ∃ b ∈ before, b.IsFor a.path := by
  rw [h.collided before a later hsplit, or_iff_right]
  simp [Has]

/-- The first call for a path does not collide. -/
theorem exists_first (h : Logs ⟨directory, entityModule, []⟩ attempts after)
    (hsplit : attempts = before ++ later) {path : Path} (hb : b ∈ before) (hpath : b.IsFor path) :
    ∃ initial a rest, before = initial ++ a :: rest ∧ a.IsFor path ∧
      (a.Succeeded ∨ a.Failed) := by
  have hfound : (before.find? fun a => decide (a.IsFor path)).isSome :=
    List.find?_isSome.mpr ⟨b, hb, decide_eq_true hpath⟩
  obtain ⟨a, ha⟩ := Option.isSome_iff_exists.mp hfound
  obtain ⟨hfor, initial, rest, hbefore, hearlier⟩ := List.find?_eq_some_iff_append.mp ha
  have hfor : a.IsFor path := of_decide_eq_true hfor
  have hsplit' : attempts = initial ++ a :: (rest ++ later) := by simp [hsplit, hbefore]
  have hnot : ¬ a.Collided := by
    rw [h.collided_iff hsplit']
    rintro ⟨c, hc, hsame⟩
    have hother : ¬ c.IsFor path := by simpa using hearlier c hc
    exact hother (Eq.trans hfor hsame)
  refine ⟨initial, a, rest, hbefore, hfor, ?_⟩
  rcases h.ended a (by simp [hsplit']) with hok | hcollided | hfailed
  · exact .inl hok
  · exact absurd hcollided hnot
  · exact .inr hfailed

/-- After a call that failed there is none for its path that succeeds, and there was none before. -/
theorem not_succeeded_of_failed (h : Logs ⟨directory, entityModule, []⟩ attempts after)
    (ha : a ∈ attempts) (hfailed : a.Failed) (hb : b ∈ attempts) (hsame : b.IsFor a.path) :
    ¬ b.Succeeded := by
  intro hok
  obtain ⟨before, later, hsplit⟩ := List.append_of_mem ha
  rw [hsplit, List.mem_append, List.mem_cons] at hb
  rcases hb with hb | rfl | hb
  · exact hfailed.not_collided ((h.collided_iff hsplit).mpr ⟨b, hb, hsame⟩)
  · exact hfailed.not_succeeded hok
  · obtain ⟨between, last, rfl⟩ := List.append_of_mem hb
    have hsplit' : attempts = (before ++ a :: between) ++ b :: last := by simp [hsplit]
    exact hok.not_collided
      ((h.collided_iff hsplit').mpr ⟨a, List.mem_append_right _ List.mem_cons_self, hsame.symm⟩)

/-- The record is that of the files written if no call fails. -/
theorem has_iff_succeeded_iff (h : Logs ⟨directory, entityModule, []⟩ attempts after) :
    (∀ path, after.Has path ↔ ∃ a ∈ attempts, a.IsFor path ∧ a.Succeeded) ↔
      ∀ a ∈ attempts, ¬ a.Failed := by
  constructor
  · intro htruthful a ha hfailed
    obtain ⟨b, hb, hsame, hok⟩ := (htruthful a.path).mp ((h.has_iff a.path).mpr ⟨a, ha, rfl⟩)
    exact h.not_succeeded_of_failed ha hfailed hb hsame hok
  · intro hnone path
    rw [h.has_iff]
    constructor
    · rintro ⟨b, hb, hpath⟩
      obtain ⟨initial, a, rest, rfl, hfor, hok | hfailed⟩ :=
        h.exists_first (List.append_nil attempts).symm hb hpath
      · exact ⟨a, by simp, hfor, hok⟩
      · exact absurd hfailed (hnone a (by simp))
    · rintro ⟨a, ha, hpath, _⟩
      exact ⟨a, ha, hpath⟩

/-- Collisions are with files that were written if no call comes after one for its path that
failed. -/
theorem collisions_iff (h : Logs ⟨directory, entityModule, []⟩ attempts after) :
    (∀ before (a : Attempt) later, attempts = before ++ a :: later → a.Collided →
        ∃ b ∈ before, b.IsFor a.path ∧ b.Succeeded) ↔
      ∀ before (a : Attempt) later, attempts = before ++ a :: later → a.Failed →
        ∀ b ∈ later, ¬ b.IsFor a.path := by
  constructor
  · intro htruthful before a later hsplit hfailed b hb hsame
    obtain ⟨between, last, rfl⟩ := List.append_of_mem hb
    have hsplit' : attempts = (before ++ a :: between) ++ b :: last := by simp [hsplit]
    have hcollided : b.Collided :=
      (h.collided_iff hsplit').mpr ⟨a, List.mem_append_right _ List.mem_cons_self, hsame.symm⟩
    obtain ⟨c, hc, hfor, hok⟩ := htruthful _ b last hsplit' hcollided
    exact h.not_succeeded_of_failed (hsplit ▸ by simp) hfailed
      (hsplit' ▸ List.mem_append_left _ hc) (hsame.trans hfor) hok
  · intro hnone before a later hsplit hcollided
    obtain ⟨b, hb, hsame⟩ := (h.collided_iff hsplit).mp hcollided
    obtain ⟨initial, c, rest, rfl, hfor, hok | hfailed⟩ := h.exists_first hsplit hb hsame
    · exact ⟨c, by simp, hfor, hok⟩
    · refine absurd hfor.symm (hnone initial c (rest ++ a :: later) (by simp [hsplit]) hfailed a ?_)
      simp

end Emitter.Logs

/-- **The record of an emitter is truthful exactly as long as no call fails.** After any calls of a
new emitter, on any file trees, the emitter remembers the paths of all of them, and a call collided
exactly if one before it was for the same path. So what it remembers are the paths of the calls that
succeeded exactly if none failed, and every call that collided did so with an earlier call that
succeeded exactly if no call was for the path of an earlier one that failed. -/
theorem Emitter.run_record {directory : Path} {entityModule : String}
    {calls : List (FileTree × Job)} {attempts : List Attempt} {e : Emitter}
    (h : Emitter.run ⟨directory, entityModule, []⟩ calls = (attempts, e)) :
    (∀ path, e.Has path ↔ ∃ a ∈ attempts, a.IsFor path) ∧
    (∀ before (a : Attempt) later, attempts = before ++ a :: later →
      (a.Collided ↔ ∃ b ∈ before, b.IsFor a.path)) ∧
    ((∀ path, e.Has path ↔ ∃ a ∈ attempts, a.IsFor path ∧ a.Succeeded) ↔
      ∀ a ∈ attempts, ¬ a.Failed) ∧
    ((∀ before (a : Attempt) later, attempts = before ++ a :: later → a.Collided →
        ∃ b ∈ before, b.IsFor a.path ∧ b.Succeeded) ↔
      ∀ before (a : Attempt) later, attempts = before ++ a :: later → a.Failed →
        ∀ b ∈ later, ¬ b.IsFor a.path) := by
  have hlogs := Emitter.logs_run ⟨directory, entityModule, []⟩ calls
  rw [h] at hlogs
  exact ⟨hlogs.has_iff, fun _ _ _ hsplit => hlogs.collided_iff hsplit, hlogs.has_iff_succeeded_iff,
    hlogs.collisions_iff⟩

/-! ### An example

A directory stands where the file of a badge should be. -/

namespace Desks

def occupied : FileTree where
  nodes := [(["out"], .directory), (["out", "badge.rs"], .directory)]

def badge : Job where
  dto := ⟨⟨"Desk", "Badge", {}, false⟩, [], .unspecified, [], []⟩
  entity := "Desk"
  docs := []

/-- How two calls for the badge end: nothing is written, and the path is taken. -/
def badgeAttempts : List Attempt :=
  [⟨"out/badge.rs", .error (.unwritable "out/badge.rs" .isDirectory)⟩,
    ⟨"out/badge.rs", .error (.collision "out/badge.rs")⟩]

def badgeTaken : Emitter :=
  ⟨"out", "crate::entities", ["out/badge.rs"]⟩

theorem badge_is_taken_unwritten :
    Emitter.run ⟨"out", "crate::entities", []⟩ [(occupied, badge), (occupied, badge)] =
        (badgeAttempts, badgeTaken) ∧
      (¬ ∀ path, badgeTaken.Has path ↔ ∃ a ∈ badgeAttempts, a.IsFor path ∧ a.Succeeded) ∧
      ¬ ∀ before (a : Attempt) later, badgeAttempts = before ++ a :: later → a.Collided →
        ∃ b ∈ before, b.IsFor a.path ∧ b.Succeeded := by
  have hrun : Emitter.run ⟨"out", "crate::entities", []⟩ [(occupied, badge), (occupied, badge)] =
      (badgeAttempts, badgeTaken) := rfl
  obtain ⟨_, _, hrecord, hcollisions⟩ := Emitter.run_record hrun
  have hfailed : Attempt.Failed
      ⟨"out/badge.rs", .error (.unwritable "out/badge.rs" .isDirectory)⟩ := ⟨_, _, rfl⟩
  refine ⟨hrun, fun htruthful => ?_, fun htruthful => ?_⟩
  · exact hrecord.mp htruthful _ List.mem_cons_self hfailed
  · exact hcollisions.mp htruthful [] _ _ rfl hfailed _ List.mem_cons_self rfl

end Desks

end Projection
