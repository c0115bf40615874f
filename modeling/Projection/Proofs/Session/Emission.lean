import Projection.Proofs.Emitter.Sequence
import Projection.Proofs.Schema.Registration
import Projection.Proofs.Session.TypeNames
import Projection.Proofs.Source.Taking

/-!
# The emission of what a run compiled

The types that a run leaves are emitted group by group. The entity of each group is found, because
it was found when its sources were examined, so there is a job for each type and nothing else
(`Session.jobs_eq`). The names of the types are words of the sources, so types with different paths
have different files. `Session.emission_exact` puts this together with what emission does with jobs
in sequence.
-/

namespace Projection

namespace TypeGroups

/-- All types, group by group. -/
def all (groups : TypeGroups) : List Dto :=
  groups.flatMap (·.2)

/-- The jobs for all types, group by group. -/
def jobs (groups : TypeGroups) (docs : List Path) : List Job :=
  groups.flatMap fun group => group.2.map fun dto => ⟨dto, group.1, docs⟩

theorem map_dto_jobs (groups : TypeGroups) (docs : List Path) :
    (groups.jobs docs).map (·.dto) = groups.all := by
  simp [jobs, all, List.map_flatMap, Function.comp_def]

theorem length_all (groups : TypeGroups) : groups.all.length = groups.count := by
  induction groups with
  | nil => rfl
  | cons group groups ih =>
    rw [all, List.flatMap_cons, List.length_append]
    exact congrArg (group.2.length + ·) ih

variable {parts : List (Name × List Dto)} {group : Name × List Dto}

theorem exists_part_of_mem_collect (h : group ∈ collect parts) :
    ∃ part ∈ parts, part.1 = group.1 := by
  obtain ⟨entity, hentity, rfl⟩ := List.mem_map.mp h
  exact List.mem_map.mp (List.mem_eraseDups.mp hentity)

theorem exists_part_of_mem_types (h : group ∈ collect parts) {dto : Dto} (hdto : dto ∈ group.2) :
    ∃ part ∈ parts, dto ∈ part.2 := by
  obtain ⟨entity, _, rfl⟩ := List.mem_map.mp h
  obtain ⟨part, hpart, hdto⟩ := List.mem_flatMap.mp hdto
  exact ⟨part, List.mem_of_mem_filter hpart, hdto⟩

end TypeGroups

namespace Session

section Compiled

variable {r : Registry} {s after : Session Registry} {tree : FileTree} {path : Path}
  {sources : List Path} {produced : Bool} {group : Name × List Dto} {schema : Schema}
  {defaults : Defaults}

theorem Contributes.lookup (h : Contributes r tree schema defaults path (some group)) :
    ∃ e, r.lookup group.1 = some e := by
  cases h with
  | types hadmitted _ =>
    obtain ⟨_, e, hlookup, _⟩ := hadmitted
    exact ⟨e, hlookup⟩

theorem Contributes.isIdentifier (h : Contributes r tree schema defaults path (some group))
    {dto : Dto} (hdto : dto ∈ group.2) : Token.isIdentifier dto.name = true := by
  cases h with
  | types hadmitted hcompile =>
    have hname := List.mem_map_of_mem (f := Dto.name) hdto
    rw [(Source.names_of_compile hcompile).1] at hname
    obtain ⟨d, hd, hname⟩ := List.mem_map.mp hname
    rw [← hname]
    exact Source.isIdentifier_of_parse hadmitted.1.parsed hd

/-- The types that a run leaves are what its sources contribute. -/
theorem exists_parts (h : s.processSources tree sources = (.ok produced, after)) :
    ∃ parts schema, after.types = TypeGroups.collect parts ∧ ∀ part ∈ parts, ∃ path,
      Contributes s.store tree schema s.settings.defaults path (some part) := by
  obtain ⟨store, parts, _, hparts, htypes⟩ := contributes_of_processSources h
  refine ⟨parts.filterMap id, SchemaStore.schema store, htypes, fun part hpart => ?_⟩
  obtain ⟨_, hpart, rfl⟩ := List.mem_filterMap.mp hpart
  obtain ⟨path, _, hcontributes⟩ := exists_mem_of_forall₂ hparts hpart
  exact ⟨path, hcontributes⟩

/-- The entity of every group is found after the run. -/
theorem lookup_of_mem_types (h : s.processSources tree sources = (.ok produced, after))
    (hgroup : group ∈ after.types) :
    ∃ e, after.store.lookup group.1 = some e ∧ e.name = group.1 := by
  obtain ⟨parts, schema, htypes, hparts⟩ := exists_parts h
  rw [htypes] at hgroup
  obtain ⟨part, hpart, hentity⟩ := TypeGroups.exists_part_of_mem_collect hgroup
  obtain ⟨path, hcontributes⟩ := hparts part hpart
  obtain ⟨e, hlookup⟩ := hcontributes.lookup
  obtain ⟨_, _, hfinal, _⟩ := processSources_eq_ok h
  obtain ⟨_, _, hstore⟩ := Registry.finalize_eq_ok_iff.mp hfinal
  rw [hentity] at hlookup
  have hname : e.name = group.1 := by simpa using List.find?_some hlookup
  refine ⟨e, ?_, hname⟩
  rw [hstore]
  exact hlookup

/-- Types are named with words. -/
theorem isWord_of_mem_jobs (h : s.processSources tree sources = (.ok produced, after)) :
    ∀ job ∈ after.types.jobs after.docs, job.dto.name.toList.all Token.isWordChar = true := by
  intro job hjob
  obtain ⟨group, hgroup, hjob⟩ := List.mem_flatMap.mp hjob
  obtain ⟨dto, hdto, rfl⟩ := List.mem_map.mp hjob
  obtain ⟨parts, schema, htypes, hparts⟩ := exists_parts h
  rw [htypes] at hgroup
  obtain ⟨part, hpart, hdto⟩ := TypeGroups.exists_part_of_mem_types hgroup hdto
  obtain ⟨path, hcontributes⟩ := hparts part hpart
  have hidentifier := hcontributes.isIdentifier hdto
  simp only [Token.isIdentifier, Bool.and_eq_true] at hidentifier
  exact hidentifier.1.1.1

/-- After a run that succeeds there is a job for each type, and nothing else. -/
theorem jobs_eq (h : s.processSources tree sources = (.ok produced, after)) :
    after.jobs = (after.types.jobs after.docs).map .ok := by
  rw [jobs, TypeGroups.jobs, List.map_flatMap]
  refine List.flatMap_congr fun group hgroup => ?_
  obtain ⟨e, hlookup, hname⟩ := lookup_of_mem_types h hgroup
  have hfound : SchemaStore.lookup after.store group.1 = some e := hlookup
  simp only [hfound, hname, List.map_map]
  rfl

end Compiled

end Session

/-- **Emission writes every compiled type once.** Take a run over a registry that succeeds, and
emit what it left with an emitter that has written nothing. Emission finds all entities. If it
comes to its end, it counts the types of all groups, their paths are pairwise different and were
taken in their order, and at each of them stands the rendering of its type for its entity. If a
type has the path of a type before it, emission fails and leaves what the emission of the types
before it leaves. -/
theorem Session.emission_exact {s after : Session Registry} {tree : FileTree}
    {sources : List Path} {produced : Bool}
    (h : s.processSources tree sources = (.ok produced, after)) {emitter : Emitter}
    (hfresh : emitter.written = []) {files : FileTree} {result : Except EmitFault Nat}
    {final : Workspace} (hemit : Workspace.emitAll ⟨emitter, files⟩ after.jobs = (result, final)) :
    (∀ entity, result ≠ .error (.unknownEntity entity)) ∧
    (∀ n, result = .ok n →
      n = after.types.count ∧
      after.types.all.Pairwise (fun dto dto' =>
        (emitter.pathOf dto).components ≠ (emitter.pathOf dto').components) ∧
      final.emitter.written = after.types.all.map emitter.pathOf ∧
      ∀ group ∈ after.types, ∃ e, after.store.lookup group.1 = some e ∧ e.name = group.1 ∧
        ∀ dto ∈ group.2, final.tree.get (emitter.pathOf dto) = .ok (.file
          (Rendering.ofDto dto e.name dto.outline.mutable emitter.entityModule).text.toUTF8)) ∧
    (∀ before second later, after.types.all = before ++ second :: later → ∀ first ∈ before,
      (emitter.pathOf first).components = (emitter.pathOf second).components →
      (∃ fault, result = .error fault) ∧
        final = (Workspace.emitAll ⟨emitter, files⟩ (after.jobs.take before.length)).2) := by
  have hdtos := after.types.map_dto_jobs after.docs
  rw [jobs_eq h] at hemit ⊢
  refine ⟨fun entity hresult => ?_, fun n hn => ?_,
    fun before second later hall first hfirst hsame => ?_⟩
  · have hknown := Workspace.emitAll_ne_unknownEntity ⟨emitter, files⟩
      (after.types.jobs after.docs) entity
    rw [hemit, hresult] at hknown
    exact hknown rfl
  · subst hn
    obtain ⟨hcount, hwritten⟩ := Workspace.wrote_of_emitAll hemit
    have hpairwise := (Workspace.pairwise_of_emitAll hemit).2
    refine ⟨?_, ?_, ?_, fun group hgroup => ?_⟩
    · rw [hcount, ← List.length_map (f := Job.dto), hdtos, TypeGroups.length_all]
    · rw [← hdtos, List.pairwise_map]
      exact hpairwise
    · rw [hwritten, hfresh, ← hdtos, List.map_map]
      rfl
    · obtain ⟨e, hlookup, hname⟩ := lookup_of_mem_types h hgroup
      refine ⟨e, hlookup, hname, fun dto hdto => ?_⟩
      have hjob : ⟨dto, group.1, after.docs⟩ ∈ after.types.jobs after.docs :=
        List.mem_flatMap.mpr ⟨group, hgroup, List.mem_map_of_mem hdto⟩
      have hget := Workspace.get_of_emitAll (isWord_of_mem_jobs h) hemit hjob
      rw [Emitter.textOf, ← hname] at hget
      exact hget
  · -- The types before the second are those of the jobs before its job.
    rw [← hdtos] at hall
    obtain ⟨jobs, rest, hjobs, hbefore, hrest⟩ := List.map_eq_append_iff.mp hall
    obtain ⟨job, more, rfl, hsecond, _⟩ := List.map_eq_cons_iff.mp hrest
    obtain ⟨firstJob, hfirstJob, rfl⟩ := List.mem_map.mp (hbefore ▸ hfirst)
    rw [hjobs, List.map_append, List.map_cons] at hemit ⊢
    have hcollision := Workspace.emitAll_collision (w := ⟨emitter, files⟩) hfirstJob
      (hsame.trans (by rw [hsecond])) (more.map .ok)
    rw [hemit] at hcollision
    refine ⟨hcollision.1, hcollision.2.trans ?_⟩
    rw [← hbefore, List.length_map, ← List.length_map (f := Except.ok (ε := EmitFault)),
      List.take_left]

/-! ### An example

The front office alone gets the file of its badge. With the badge of the back office, which has the
same path, emission fails, and leaves what the first badge leaves. -/

namespace Offices

def emitter : Emitter where
  directory := "out"
  entityModule := "entities"

theorem second_badge_is_not_written :
    (∃ after dto final, session.processSources tree ["Front.dto"] = (.ok true, after) ∧
      Workspace.emitAll ⟨emitter, tree⟩ after.jobs = (.ok 1, final) ∧
      after.types = [("Employee", [dto])] ∧
      final.tree.get (emitter.pathOf dto) = .ok (.file
        (Rendering.ofDto dto "Employee" dto.outline.mutable "entities").text.toUTF8)) ∧
    ∃ after fault final, session.processSources tree sources = (.ok true, after) ∧
      Workspace.emitAll ⟨emitter, tree⟩ after.jobs = (.error fault, final) ∧
      final = (Workspace.emitAll ⟨emitter, tree⟩ (after.jobs.take 1)).2 := by
  constructor
  · have hran : (session.processSources tree ["Front.dto"]).1.toOption = some true ∧
        (Workspace.emitAll ⟨emitter, tree⟩
          (session.processSources tree ["Front.dto"]).2.jobs).1.toOption = some 1 ∧
        (session.processSources tree ["Front.dto"]).2.types.map
          (fun group => (group.1, group.2.length)) = [("Employee", 1)] := by
      decide +kernel
    rcases hrun : session.processSources tree ["Front.dto"] with ⟨answer, after⟩
    rcases hemit : Workspace.emitAll ⟨emitter, tree⟩ after.jobs with ⟨result, final⟩
    simp only [hrun, hemit] at hran
    obtain ⟨hanswer, hresult, hgroups⟩ := hran
    obtain rfl := eq_ok_of_toOption hanswer
    obtain rfl := eq_ok_of_toOption hresult
    obtain ⟨⟨entity, types⟩, htypes, hgroup⟩ := List.map_eq_singleton_iff.mp hgroups
    obtain ⟨rfl, hlength⟩ := Prod.mk.inj hgroup
    obtain ⟨dto, rfl⟩ := List.length_eq_one_iff.mp hlength
    obtain ⟨_, _, _, hfiles⟩ := (Session.emission_exact hrun rfl hemit).2.1 1 rfl
    obtain ⟨e, _, hname, hget⟩ := hfiles _ (htypes ▸ List.mem_singleton.mpr rfl)
    have hdto := hget dto (List.mem_singleton.mpr rfl)
    rw [hname] at hdto
    exact ⟨after, dto, final, rfl, hemit, htypes, hdto⟩
  · have hran : (session.processSources tree sources).1.toOption = some true ∧
        (session.processSources tree sources).2.types.map
          (fun group => (group.1, group.2.map Dto.name)) = [("Employee", ["Badge", "Badge"])] := by
      decide +kernel
    rcases hrun : session.processSources tree sources with ⟨answer, after⟩
    rcases hemit : Workspace.emitAll ⟨emitter, tree⟩ after.jobs with ⟨result, final⟩
    rw [hrun] at hran
    obtain ⟨hanswer, hgroups⟩ := hran
    obtain rfl := eq_ok_of_toOption hanswer
    obtain ⟨⟨entity, types⟩, htypes, hgroup⟩ := List.map_eq_singleton_iff.mp hgroups
    obtain ⟨rfl, hnames⟩ := Prod.mk.inj hgroup
    obtain ⟨first, rest, rfl, hfirst, hrest⟩ := List.map_eq_cons_iff.mp hnames
    obtain ⟨second, rfl, hsecond⟩ := List.map_eq_singleton_iff.mp hrest
    have hpath : emitter.pathOf first = emitter.pathOf second := by
      rw [Emitter.pathOf, Emitter.pathOf, Rendering.fileName, Rendering.fileName, hfirst, hsecond]
    obtain ⟨⟨fault, rfl⟩, hfinal⟩ := (Session.emission_exact hrun rfl hemit).2.2 [first] second []
      (by rw [htypes]; rfl) first (List.mem_singleton.mpr rfl) (congrArg Path.components hpath)
    exact ⟨after, fault, final, rfl, hemit, hfinal⟩

end Offices

end Projection
