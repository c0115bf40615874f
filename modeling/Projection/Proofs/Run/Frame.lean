import Projection.Proofs.Emitter.Steps
import Projection.Proofs.Session.Outcome
import Projection.Run

/-!
# What a run leaves behind

A run reads, compiles and only then emits. What it finds before it emits, `Run.compiled`, does not
depend on whether it was only to check, and leaves the file tree alone. Emission makes directories
on the way to the output directory, and writes files at the paths of the types that were compiled;
nothing else changes.
-/

namespace Projection

/-- The fault is one of emission. -/
def RunFault.IsEmit (fault : RunFault) : Prop :=
  ∃ cause, fault = .emit cause

/-! ### Faults before emission -/

namespace Session

theorem FailsEarly.not_isEmit {r : Registry} {tree : FileTree} {path : Path} {fault : RunFault}
    (h : FailsEarly r tree path fault) : ¬ fault.IsEmit := by
  rintro ⟨cause, rfl⟩
  cases h

theorem FailsToCompile.not_isEmit {r : Registry} {tree : FileTree} {schema : Schema}
    {defaults : Defaults} {path : Path} {fault : RunFault}
    (h : FailsToCompile r tree schema defaults path fault) : ¬ fault.IsEmit := by
  obtain ⟨text, source, refused, _, _, rfl⟩ := h
  rintro ⟨cause, hcause⟩
  cases hcause

theorem not_isEmit_of_processSources {s : Session Registry} {tree : FileTree} {sources : List Path}
    {fault : RunFault} (h : (s.processSources tree sources).1 = .error fault) : ¬ fault.IsEmit := by
  simp only [processSources] at h
  split at h
  · rename_i hexamine
    cases h
    obtain ⟨_, path, _, _, _, hfails⟩ := firstFails_of_mapM_eq_error hexamine
    exact (examine_eq_error_iff.mp hfails).not_isEmit
  · rename_i examined hexamine
    split at h
    · cases h
      rintro ⟨cause, hcause⟩
      cases hcause
    · split at h
      · rename_i hcompile
        cases h
        obtain ⟨_, path, _, _, _, hfails⟩ :=
          firstFails_of_foldlM (forall₂_of_mapM_eq_ok hexamine) hcompile
        exact hfails.not_isEmit
      · cases h

theorem not_isEmit_of_process {s : Session Registry} {tree : FileTree} {fault : RunFault}
    (h : (s.process tree).1 = .error fault) : ¬ fault.IsEmit := by
  simp only [process] at h
  split at h
  · cases h
    rintro ⟨cause, hcause⟩
    cases hcause
  · exact not_isEmit_of_processSources h

/-- What is to be emitted is a type of the session. -/
theorem mem_types_of_mem_jobs {s : Session Registry} {job : Job} (h : .ok job ∈ s.jobs) :
    ∃ group ∈ s.types, job.dto ∈ group.2 := by
  obtain ⟨group, hgroup, hjob⟩ := List.mem_flatMap.mp h
  refine ⟨group, hgroup, ?_⟩
  simp only at hjob
  split at hjob
  · obtain ⟨dto, hdto, heq⟩ := List.mem_map.mp hjob
    cases heq
    exact hdto
  · simp at hjob

end Session

namespace Run

variable {tree : FileTree} {args : Arguments} {system : Option Path} {fault : RunFault}

theorem not_isEmit_of_readSettings {path : Path} (h : readSettings tree path = .error fault) :
    ¬ fault.IsEmit := by
  rintro ⟨cause, rfl⟩
  simp only [readSettings] at h
  split at h
  · cases h
  · split at h
    · cases h
    · split at h <;> cases h

theorem not_isEmit_of_readCatalog {path : Path} {policy : Policy}
    (h : readCatalog tree path policy = .error fault) : ¬ fault.IsEmit := by
  rintro ⟨cause, rfl⟩
  simp only [readCatalog] at h
  split at h
  · cases h
  · rename_i text _
    cases hregistry : Catalog.registry path policy (Toml.read? text) with
    | error refused =>
      rw [hregistry] at h
      cases h
    | ok registry =>
      rw [hregistry] at h
      cases h

theorem not_isEmit_of_session (h : session tree args system = .error fault) : ¬ fault.IsEmit := by
  rw [session, bind_eq_error] at h
  rcases h with hsettings | ⟨s, _, h⟩
  · rw [settings] at hsettings
    split at hsettings
    · exact not_isEmit_of_readSettings hsettings
    · cases hsettings
  · rcases bind_eq_error.mp h with hcatalog | ⟨registry, _, h⟩
    · exact not_isEmit_of_readCatalog hcatalog
    · cases h

/-! ### Runs -/

/-- What a run finds before it emits: the session with its types, if there are any. -/
def compiled (tree : FileTree) (args : Arguments) (system : Option Path) :
    Except RunFault (Option (Session Registry)) :=
  match session tree args system with
  | .error fault => .error fault
  | .ok s =>
    match s.process tree with
    | (.error fault, _) => .error fault
    | (.ok false, _) => .ok none
    | (.ok true, s) => .ok (some s)

theorem run_eq (tree : FileTree) (args : Arguments) (system : Option Path) :
    run tree args system =
      match compiled tree args system with
      | .error fault => (.error fault, tree)
      | .ok none => (.ok false, tree)
      | .ok (some s) => if args.check then (.ok true, tree) else emit tree s := by
  unfold run compiled
  cases session tree args system with
  | error fault => rfl
  | ok s =>
    dsimp only
    obtain ⟨result, after⟩ := s.process tree
    match result with
    | .error fault => rfl
    | .ok false => rfl
    | .ok true => rfl

/-- What a run finds before it emits does not depend on whether it only checks. -/
theorem run_check_eq (tree : FileTree) (args : Arguments) (system : Option Path) (check : Bool) :
    run tree { args with check } system =
      match compiled tree args system with
      | .error fault => (.error fault, tree)
      | .ok none => (.ok false, tree)
      | .ok (some s) => if check then (.ok true, tree) else emit tree s :=
  run_eq tree { args with check } system

theorem not_isEmit_of_compiled (h : compiled tree args system = .error fault) : ¬ fault.IsEmit := by
  rw [compiled] at h
  split at h
  · rename_i hsession
    cases h
    exact not_isEmit_of_session hsession
  · rename_i s _
    split at h
    · rename_i hprocess
      cases h
      exact Session.not_isEmit_of_process (congrArg Prod.fst hprocess)
    · cases h
    · cases h

/-- What was compiled is what a session of the command line made of the sources it found. -/
theorem process_of_compiled {after : Session Registry}
    (h : compiled tree args system = .ok (some after)) :
    ∃ s, session tree args system = .ok s ∧ s.process tree = (.ok true, after) := by
  rw [compiled] at h
  split at h
  · cases h
  · rename_i s hsession
    split at h
    · cases h
    · cases h
    · rename_i hprocess
      cases h
      exact ⟨s, hsession, hprocess⟩

theorem emit_cases (tree : FileTree) (s : Session Registry) :
    (emit tree s).1 = .ok true ∨ ∃ cause, (emit tree s).1 = .error (.emit cause) := by
  simp only [emit]
  split
  · exact .inl rfl
  · exact .inr ⟨_, rfl⟩

/-- The emitter of a session. -/
def emitterOf (s : Session Registry) : Emitter where
  directory := s.settings.directory
  entityModule := s.settings.entityModule

theorem changes_emit (tree : FileTree) (s : Session Registry) :
    FileTree.Changes (tree.OnTheWay s.settings.directory) ((emitterOf s).OutputsAny tree s.jobs)
      tree (emit tree s).2 := by
  have hall := Workspace.changes_emitAll ⟨emitterOf s, tree⟩ s.jobs
  rw [emit]
  split <;>
  · rename_i hemitAll
    have hemitted : Workspace.emitAll ⟨emitterOf s, tree⟩ s.jobs = _ := hemitAll
    rw [hemitted] at hall
    exact hall

/-- A run leaves the tree as it is if it does not come to emission. -/
theorem tree_run (h : args.check = true ∨ (run tree args system).1 = .ok false ∨
    ∃ fault, (run tree args system).1 = .error fault ∧ ¬ fault.IsEmit) :
    (run tree args system).2 = tree := by
  rw [run_eq] at h ⊢
  split at h
  · rfl
  · rfl
  · rename_i after _
    by_cases hcheck : args.check = true
    · rw [if_pos hcheck]
    · -- A run that emits answers that there are types, or a fault of emission.
      rw [if_neg hcheck] at h
      exfalso
      rcases emit_cases tree after with htrue | ⟨cause, hcause⟩
      · rw [htrue] at h
        rcases h with h | h | ⟨fault, h, _⟩
        · exact hcheck h
        · cases h
        · cases h
      · rw [hcause] at h
        rcases h with h | h | ⟨fault, h, hnot⟩
        · exact hcheck h
        · cases h
        · cases h
          exact hnot ⟨cause, rfl⟩

/-- A run leaves the tree as it is, or changes it as the emission of its types does. -/
theorem changes_run (tree : FileTree) (args : Arguments) (system : Option Path) :
    (run tree args system).2 = tree ∨ ∃ after, compiled tree args system = .ok (some after) ∧
      FileTree.Changes (tree.OnTheWay after.settings.directory)
        ((emitterOf after).OutputsAny tree after.jobs) tree (run tree args system).2 := by
  rw [run_eq]
  rcases compiled tree args system with fault | _ | after
  · exact .inl rfl
  · exact .inl rfl
  · dsimp only
    split
    · exact .inl rfl
    · exact .inr ⟨after, rfl, changes_emit tree after⟩

/-- A run that emits answers what one that only checks does, unless emission fails. -/
theorem run_check (tree : FileTree) (args : Arguments) (system : Option Path) :
    (run tree { args with check := false } system).1 =
        (run tree { args with check := true } system).1 ∨
      (run tree { args with check := true } system).1 = .ok true ∧
        ∃ cause, (run tree { args with check := false } system).1 = .error (.emit cause) := by
  rw [run_check_eq, run_check_eq]
  rcases compiled tree args system with fault | _ | after
  · exact .inl rfl
  · exact .inl rfl
  · rcases emit_cases tree after with htrue | hcause
    · exact .inl htrue
    · exact .inr ⟨rfl, hcause⟩

theorem run_check_ne_emit (tree : FileTree) (args : Arguments) (system : Option Path)
    (cause : EmitFault) :
    (run tree { args with check := true } system).1 ≠ .error (.emit cause) := by
  rw [run_check_eq]
  rcases hcompiled : compiled tree args system with fault | _ | after
  · intro h
    cases h
    exact not_isEmit_of_compiled hcompiled ⟨cause, rfl⟩
  · exact nofun
  · exact nofun

/-- A run leaves the file tree as it is if it only checks, finds no type or fails before emission.
Otherwise a place can only change in two ways: a missing directory on the way to the output
directory is made, or the file at the path of a type that was compiled is written. A run that only
checks gives the faults that one that emits gives, those of emission apart, and its answer when
there is one. -/
theorem run_frame (tree : FileTree) (args : Arguments) (system : Option Path) :
    (args.check = true ∨ (run tree args system).1 = .ok false ∨
        (∃ fault, (run tree args system).1 = .error fault ∧ ¬ fault.IsEmit) →
      (run tree args system).2 = tree) ∧
    (run tree args system).2.workingDir = tree.workingDir ∧
    (∀ place, (run tree args system).2.find? place ≠ tree.find? place →
      ∃ s after, session tree args system = .ok s ∧ s.process tree = (.ok true, after) ∧
        (tree.find? place = none ∧ (run tree args system).2.find? place = some .directory ∧
            tree.OnTheWay after.settings.directory place ∨
          tree.find? place ≠ some .directory ∧ ∃ group ∈ after.types, ∃ job : Job,
            job.dto ∈ group.2 ∧ place = tree.placeOf ((emitterOf after).pathOf job.dto) ∧
            (run tree args system).2.find? place =
              some (.file ((emitterOf after).textOf job).toUTF8))) ∧
    (∀ fault : RunFault, ¬ fault.IsEmit →
      ((run tree { args with check := true } system).1 = .error fault ↔
        (run tree { args with check := false } system).1 = .error fault)) ∧
    (∀ found, (run tree { args with check := false } system).1 = .ok found →
      (run tree { args with check := true } system).1 = .ok found) ∧
    ∀ cause, (run tree { args with check := true } system).1 ≠ .error (.emit cause) := by
  refine ⟨tree_run, ?_, fun place hplace => ?_, fun fault hfault => ?_, fun found hfound => ?_,
    run_check_ne_emit tree args system⟩
  · rcases changes_run tree args system with hsame | ⟨after, _, hchanges⟩
    · rw [hsame]
    · exact hchanges.workingDir
  · rcases changes_run tree args system with hsame | ⟨after, hcompiled, hchanges⟩
    · exact absurd (by rw [hsame]) hplace
    · obtain ⟨s, hsession, hprocess⟩ := process_of_compiled hcompiled
      refine ⟨s, after, hsession, hprocess, ?_⟩
      rcases hchanges.changed place hplace with hdirectory | ⟨hbefore, content, hafter, hfile⟩
      · exact .inl hdirectory
      · obtain ⟨job, hjob, hpath, rfl⟩ := hfile
        obtain ⟨group, hgroup, hdto⟩ := Session.mem_types_of_mem_jobs hjob
        exact .inr ⟨hbefore, group, hgroup, job, hdto, hpath, hafter⟩
  · -- the two runs part only where a file cannot be written
    rcases run_check tree args system with hsame | ⟨htrue, cause, hcause⟩
    · rw [hsame]
    · rw [htrue, hcause]
      refine ⟨nofun, fun h => ?_⟩
      cases h
      exact absurd ⟨cause, rfl⟩ hfault
  · rcases run_check tree args system with hsame | ⟨_, cause, hcause⟩
    · rw [← hsame]
      exact hfound
    · rw [hcause] at hfound
      cases hfound

end Run

/-! ### An example

A catalog and one source, and nothing else. The run makes the output directory and writes the file
of `Tag` there; checked, it gives the same answer and writes nothing. -/

namespace Desks

def tree : FileTree where
  nodes := [
    (["schema.toml"], .file ("[[entities]]\nname = \"Desk\"\nmarker = \"entity\"\n" ++
      "[[entities.properties]]\nname = \"id\"\ntype = \"Long\"\n").toUTF8),
    (["Desk.dto"], .file "export Desk\nTag \x7b id \x7d\n".toUTF8)]

def args : Arguments where
  sourceDirs := ["."]
  schema := "schema.toml"
  output := some "out"
  config := none
  mutable := false
  logLevel := "info"
  check := false

theorem tag_is_written_unless_checked :
    (Run.run tree args none).1 = .ok true ∧
      (Run.run tree args none).2.find? ["out", "tag.rs"] ≠ tree.find? ["out", "tag.rs"] ∧
      (Run.run tree { args with check := true } none).1 = .ok true ∧
      (Run.run tree { args with check := true } none).2 = tree := by
  have hbefore : tree.find? ["out", "tag.rs"] = none := rfl
  have hran : (Run.run tree args none).1.toOption = some true ∧
      ((Run.run tree args none).2.find? ["out", "tag.rs"]).isSome = true := by
    decide +kernel
  have hanswer : (Run.run tree args none).1 = .ok true := by
    cases hresult : (Run.run tree args none).1 with
    | error fault =>
      rw [hresult] at hran
      cases hran.1
    | ok found =>
      rw [hresult] at hran
      cases hran.1
      rfl
  refine ⟨hanswer, ?_, (Run.run_frame tree args none).2.2.2.2.1 true hanswer,
    (Run.run_frame tree { args with check := true } none).1 (.inl rfl)⟩
  rw [hbefore]
  exact Option.isSome_iff_ne_none.mp hran.2

end Desks

end Projection
