import Projection.Notice
import Projection.Proofs.Dto.Nesting
import Projection.Proofs.Session.Outcome
import Projection.Proofs.Source.Refusal
import Projection.Run

/-!
# Every failure tells where to look

A run that fails on the text of a source passes on the report on that text, and the user gets one
notice for each of its diagnostics. So whatever is wrong with a source, the user is told of it, with
a place in the text.

`RunFault.Raised` says which faults a run can end with, whatever store of entities it has, and
`RunFault.RefersTo` what such a fault has to do with the files. The main result,
`failures_are_located`, follows a text through its three stages: reading, compiling, and the notices
of a run.
-/

namespace Projection

/-- What the fault tells about the text of a source. A fault of another kind tells nothing. -/
inductive RunFault.RefersTo (tree : FileTree) : RunFault → Prop
  | parse {path : Path} {report : Report} {text : String} :
      tree.read path = .ok text → report.RefusesToRead text →
      RefersTo tree (.parse path report text)
  | compile {path : Path} {report : Report} {text : String} :
      tree.read path = .ok text → report.RefusesToCompile text →
      RefersTo tree (.compile path report text)
  | other {fault : RunFault} : fault.report? = none → RefersTo tree fault

/-- The fault is the answer of a session to some sources, or of a whole run. -/
inductive RunFault.Raised (tree : FileTree) (fault : RunFault) : Prop
  | session {σ : Type} [SchemaStore σ] (s : Session σ) (sources : List Path) :
      (s.processSources tree sources).1 = .error fault → Raised tree fault
  | run (args : Arguments) (system : Option Path) :
      (Run.run tree args system).1 = .error fault → Raised tree fault

variable {tree : FileTree} {fault : RunFault}

/-! ### Sessions -/

namespace Session

variable {σ : Type} [SchemaStore σ] {store : σ} {path : Path}

theorem refersTo_of_examine (h : examine store tree path = .error fault) :
    fault.RefersTo tree := by
  unfold examine at h
  split at h
  · cases h
    exact .other rfl
  · rename_i text hread
    split at h
    · rename_i report hparse
      cases h
      exact .parse hread (Source.refusesToRead_of_parse hparse)
    · split at h
      · cases h
        exact .other rfl
      · split at h
        · cases h
        · split at h
          · cases h
            exact .other rfl
          · cases h

/-- A source that is compiled later was read from its file. -/
theorem parses_of_examine {parsed : ParsedSource}
    (h : examine store tree path = .ok (some parsed)) :
    Parses tree parsed.path parsed.text parsed.source := by
  unfold examine at h
  split at h
  · cases h
  · rename_i text hread
    split at h
    · cases h
    · rename_i source hparse
      split at h
      · cases h
      · split at h
        · cases h
        · split at h
          · cases h
          · cases h
            exact ⟨hread, hparse⟩

theorem refersTo_of_compileInto {schema : Schema} {defaults : Defaults} {groups : TypeGroups}
    {parsed : ParsedSource} (hparses : Parses tree parsed.path parsed.text parsed.source)
    (h : compileInto schema defaults groups parsed = .error fault) : fault.RefersTo tree := by
  unfold compileInto at h
  split at h
  · cases h
  · rename_i hcompile
    cases h
    exact .compile hparses.read (Source.refusesToCompile_of_compile hparses.parsed hcompile)

theorem refersTo_of_foldlM {schema : Schema} {defaults : Defaults} {groups : TypeGroups}
    {parsed : List ParsedSource}
    (hparses : ∀ p ∈ parsed, Parses tree p.path p.text p.source)
    (h : parsed.foldlM (compileInto schema defaults) groups = .error fault) :
    fault.RefersTo tree := by
  induction parsed generalizing groups with
  | nil => cases h
  | cons p parsed ih =>
    obtain ⟨hp, hrest⟩ := List.forall_mem_cons.mp hparses
    rw [List.foldlM_cons] at h
    rcases bind_eq_error.mp h with hfirst | ⟨groups', _, h⟩
    · exact refersTo_of_compileInto hp hfirst
    · exact ih hrest h

theorem refersTo_of_processSources {s : Session σ} {sources : List Path}
    (h : (s.processSources tree sources).1 = .error fault) : fault.RefersTo tree := by
  simp only [processSources] at h
  split at h
  · rename_i hexamine
    cases h
    obtain ⟨_, path, _, _, _, hfails⟩ := firstFails_of_mapM_eq_error hexamine
    exact refersTo_of_examine hfails
  · rename_i examined hexamine
    have hparses : ∀ p ∈ examined.filterMap id, Parses tree p.path p.text p.source := by
      intro p hp
      obtain ⟨x, hx, hsome⟩ := List.mem_filterMap.mp hp
      obtain rfl : x = some p := hsome
      obtain ⟨path, _, hpath⟩ := exists_mem_of_forall₂ (forall₂_of_mapM_eq_ok hexamine) hx
      exact parses_of_examine hpath
    split at h
    · cases h
      exact .other rfl
    · split at h
      · rename_i hcompile
        cases h
        exact refersTo_of_foldlM hparses hcompile
      · cases h

theorem refersTo_of_process {s : Session σ} (h : (s.process tree).1 = .error fault) :
    fault.RefersTo tree := by
  simp only [process] at h
  split at h
  · cases h
    exact .other rfl
  · exact refersTo_of_processSources h

end Session

/-! ### Runs -/

namespace Run

variable {args : Arguments} {system : Option Path}

theorem report?_of_readSettings {path : Path} (h : readSettings tree path = .error fault) :
    fault.report? = none := by
  simp only [readSettings] at h
  split at h
  · cases h
    rfl
  · split at h
    · cases h
      rfl
    · split at h <;> cases h
      rfl

theorem report?_of_readCatalog {path : Path} {policy : Policy}
    (h : readCatalog tree path policy = .error fault) : fault.report? = none := by
  simp only [readCatalog] at h
  split at h
  · cases h
    rfl
  · rename_i text _
    cases hregistry : Catalog.registry path policy (Toml.read? text) with
    | error refused =>
      rw [hregistry] at h
      cases h
      rfl
    | ok registry =>
      rw [hregistry] at h
      cases h

/-- Settings and catalog are no sources. -/
theorem report?_of_session (h : session tree args system = .error fault) :
    fault.report? = none := by
  rw [session, bind_eq_error] at h
  rcases h with hsettings | ⟨s, _, h⟩
  · rw [settings] at hsettings
    split at hsettings
    · exact report?_of_readSettings hsettings
    · cases hsettings
  · rcases bind_eq_error.mp h with hcatalog | ⟨registry, _, h⟩
    · exact report?_of_readCatalog hcatalog
    · cases h

theorem report?_of_emit {s : Session Registry} (h : (emit tree s).1 = .error fault) :
    fault.report? = none := by
  simp only [emit] at h
  split at h <;> cases h
  rfl

theorem refersTo_of_run (h : (run tree args system).1 = .error fault) : fault.RefersTo tree := by
  unfold run at h
  split at h
  · rename_i hsession
    cases h
    exact .other (report?_of_session hsession)
  · rename_i s _
    split at h
    · split at h
      · cases h
      · exact .other (report?_of_emit h)
    · rename_i result after _ hprocess
      obtain rfl : result = .error fault := h
      exact Session.refersTo_of_process (congrArg Prod.fst hprocess)

end Run

/-! ### Notices -/

theorem RunFault.Raised.refersTo (h : fault.Raised tree) : fault.RefersTo tree := by
  cases h with
  | session s sources h => exact Session.refersTo_of_processSources h
  | run args system h => exact Run.refersTo_of_run h

theorem Report.RefusesToCompile.diagnostics_ne_nil {text : String} {r : Report}
    (h : r.RefusesToCompile text) : r.diagnostics ≠ [] := by
  obtain ⟨d, _, hd, _⟩ := h.stage
  rw [hd]
  exact List.cons_ne_nil _ _

/-- The user gets a notice, and exactly one for each diagnostic of the report. -/
theorem RunFault.RefersTo.notices (h : fault.RefersTo tree) {report : Report}
    (hreport : fault.report? = some report) :
    fault.notices ≠ [] ∧ ∃ path text, tree.read path = .ok text ∧
      fault.notices = report.diagnostics.map (.diagnostic path text) ∧
      ∀ d ∈ report.diagnostics, d.PointsInto text := by
  cases h with
  | @parse path _ text hread hrefuses =>
    cases hreport
    have hne : report.diagnostics.map (Notice.diagnostic path text) ≠ [] := by
      simpa using hrefuses.diagnostics_ne_nil
    exact ⟨hne, path, text, hread, rfl, hrefuses.pointsInto⟩
  | @compile path _ text hread hrefuses =>
    cases hreport
    have hne : report.diagnostics.map (Notice.diagnostic path text) ≠ [] := by
      simpa using hrefuses.diagnostics_ne_nil
    exact ⟨hne, path, text, hread, rfl, hrefuses.pointsInto⟩
  | other hnone =>
    rw [hnone] at hreport
    cases hreport

/-- **Every failure is a report that can be located.** A text that is not read has lexical faults
only, in the order of their places, or exactly one fault in its tokens. A text that is read and does
not compile, whatever the schema and the defaults, has exactly one fault of the later stages. Each
diagnostic has a label, and each label stands within the text. A run that fails on a source tells
the user so, with one notice for each diagnostic. -/
theorem failures_are_located :
    (∀ text report, Source.parse text = .error report → report.RefusesToRead text) ∧
    (∀ text source schema defaults fault, Source.parse text = .ok source →
      source.compile schema defaults = .error fault → fault.report.RefusesToCompile text) ∧
    (∀ (tree : FileTree) (fault : RunFault) (report : Report), fault.Raised tree →
      fault.report? = some report →
      fault.notices ≠ [] ∧ ∃ path text, tree.read path = .ok text ∧
        fault.notices = report.diagnostics.map (.diagnostic path text) ∧
        ∀ d ∈ report.diagnostics, d.PointsInto text) := by
  refine ⟨?_, ?_, ?_⟩
  · intro text report hparse
    exact Source.refusesToRead_of_parse hparse
  · intro text source schema defaults fault hparse hcompile
    exact Source.refusesToCompile_of_compile hparse hcompile
  · intro tree fault report hraised hreport
    exact hraised.refersTo.notices hreport

namespace Company

/-- A text with a character of two bytes that starts no token, and a string without its end. -/
def brokenText : String :=
  "é \"x"

/-- A text that selects a property that is not there. -/
def staleText : String :=
  "export Employee\nCard \x7b salary \x7d\n"

def draftTree : FileTree where
  nodes := [(["Broken.dto"], .file brokenText.toUTF8), (["Stale.dto"], .file staleText.toUTF8)]

def drafts : Session Registry where
  settings := {}
  store := { entities := [employee, department] }

theorem drafts_are_located :
    (∃ report, Source.parse brokenText = .error report ∧ report.RefusesToRead brokenText) ∧
    (∃ source fault, Source.parse staleText = .ok source ∧
      source.compile (SchemaStore.schema registry) {} = .error fault ∧
      fault.report.RefusesToCompile staleText) ∧
    ∃ (fault : RunFault) (report : Report), fault.Raised draftTree ∧
      fault.report? = some report ∧ fault.notices ≠ [] := by
  obtain ⟨hread, hcompile, hraised⟩ := failures_are_located
  refine ⟨?_, ?_, ?_⟩
  · cases hparse : Source.parse brokenText with
    | ok source =>
      have hnone : (Source.parse brokenText).toOption.isNone = true := by decide +kernel
      rw [hparse] at hnone
      cases hnone
    | error report => exact ⟨report, rfl, hread _ _ hparse⟩
  · have hrefused : ((Source.parse staleText).toOption.map fun s =>
        (s.compile (SchemaStore.schema registry) {}).toOption.isNone) = some true := by
      decide +kernel
    cases hparse : Source.parse staleText with
    | error report =>
      rw [hparse] at hrefused
      cases hrefused
    | ok source =>
      rw [hparse] at hrefused
      cases hfault : source.compile (SchemaStore.schema registry) {} with
      | ok types => simp [Except.toOption, hfault] at hrefused
      | error fault => exact ⟨source, fault, rfl, hfault, hcompile _ _ _ _ _ hparse hfault⟩
  · have hreported : (drafts.processSources draftTree ["Stale.dto"]).1.mapError
        (fun fault => fault.report?.isSome) = .error true := by
      decide +kernel
    cases hfails : (drafts.processSources draftTree ["Stale.dto"]).1 with
    | ok produced =>
      rw [hfails] at hreported
      cases hreported
    | error fault =>
      rw [hfails] at hreported
      obtain ⟨report, hreport⟩ := Option.isSome_iff_exists.mp (Except.error.inj hreported)
      have hfault : fault.Raised draftTree := .session drafts ["Stale.dto"] hfails
      exact ⟨fault, report, hfault, hreport, (hraised _ _ _ hfault hreport).1⟩

end Company

end Projection
