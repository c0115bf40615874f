import Mathlib.Data.List.Forall2
import Mathlib.Data.List.Induction
import Projection.Proofs.Schema.Registration
import Projection.Proofs.Success
import Projection.Session

/-!
# The outcome of a run

A run looks at all sources twice: first it reads and parses them and looks at the entities they
export, then, once the registry is finalized, it compiles them. So a source that cannot be read wins
over an earlier one that does not compile.

What may happen to a source is stated for each source on its own: it fails the first phase
(`Session.FailsEarly`), its entity is excluded (`Session.Excluded`), or it is admitted
(`Session.Admitted`) and then compiles or does not. `Session.processSources_outcome` says what a run
answers and what it leaves behind, in these terms and for any state that the runs before have left.
-/

namespace Projection

namespace Session

/-- A source that can be read and parsed, with its text and what it says. -/
structure Parses (tree : FileTree) (path : Path) (text : String) (source : Source Span) : Prop where
  read : tree.read path = .ok text
  parsed : Source.parse text = .ok source

/-- A source fails the first phase: it cannot be read or parsed, its entity is not known, or its
entity is included but not marked. -/
inductive FailsEarly (r : Registry) (tree : FileTree) (path : Path) : RunFault → Prop
  | unreadable {fault : FileFault} :
      tree.read path = .error fault → FailsEarly r tree path (.unreadable path fault)
  | unparsable {text : String} {report : Report} :
      tree.read path = .ok text → Source.parse text = .error report →
      FailsEarly r tree path (.parse path report text)
  | unknown {text : String} {source : Source Span} :
      Parses tree path text source → r.lookup source.entity.val = none →
      FailsEarly r tree path (.unknownEntity path source.entity.val)
  | unmarked {text : String} {source : Source Span} {e : Entity} :
      Parses tree path text source → r.lookup source.entity.val = some e →
      r.policy.allows e.name = true → e.marker.isRecognized = false →
      FailsEarly r tree path (.ineligibleEntity path source.entity.val)

/-- The entity of a source is known, and the policy excludes it. -/
def Excluded (r : Registry) (tree : FileTree) (path : Path) : Prop :=
  ∃ text source e, Parses tree path text source ∧ r.lookup source.entity.val = some e ∧
    r.policy.allows e.name = false

/-- The entity of a source is known, included and marked. -/
def Admitted (r : Registry) (tree : FileTree) (path : Path) (text : String)
    (source : Source Span) : Prop :=
  Parses tree path text source ∧ ∃ e, r.lookup source.entity.val = some e ∧
    r.policy.allows e.name = true ∧ e.marker.isRecognized = true

/-- An admitted source does not compile. -/
def FailsToCompile (r : Registry) (tree : FileTree) (schema : Schema) (defaults : Defaults)
    (path : Path) (fault : RunFault) : Prop :=
  ∃ text source refused, Admitted r tree path text source ∧
    source.compile schema defaults = .error refused ∧
    fault = .compile path refused.report text

/-- What a source contributes to a run: the types of its entity, or nothing if that is excluded. -/
inductive Contributes (r : Registry) (tree : FileTree) (schema : Schema) (defaults : Defaults)
    (path : Path) : Option (Name × List Dto) → Prop
  | nothing : Excluded r tree path → Contributes r tree schema defaults path none
  | types {text : String} {source : Source Span} {types : List Dto} :
      Admitted r tree path text source → source.compile schema defaults = .ok types →
      Contributes r tree schema defaults path (some (source.entity.val, types))

end Session

/-- All types of an entity, in their order. -/
def TypeGroups.typesOf (parts : List (Name × List Dto)) (entity : Name) : List Dto :=
  (parts.filter (·.1 == entity)).flatMap (·.2)

/-- Types by entity: the entities in the order of their first appearance, each with all its
types. -/
def TypeGroups.collect (parts : List (Name × List Dto)) : TypeGroups :=
  (parts.map (·.1)).eraseDups.map fun entity => (entity, typesOf parts entity)

/-! ### The first phase -/

namespace Session

variable {r : Registry} {tree : FileTree} {path : Path}

/-- Every source fails the first phase, or is excluded, or is admitted. -/
theorem fate (r : Registry) (tree : FileTree) (path : Path) :
    (∃ fault, FailsEarly r tree path fault) ∨ Excluded r tree path ∨
      ∃ text source, Admitted r tree path text source := by
  cases hread : tree.read path with
  | error fault => exact .inl ⟨_, .unreadable hread⟩
  | ok text =>
    cases hparse : Source.parse text with
    | error report => exact .inl ⟨_, .unparsable hread hparse⟩
    | ok source =>
      have hparses : Parses tree path text source := ⟨hread, hparse⟩
      cases hlookup : r.lookup source.entity.val with
      | none => exact .inl ⟨_, .unknown hparses hlookup⟩
      | some e =>
        cases hallows : r.policy.allows e.name with
        | false => exact .inr (.inl ⟨text, source, e, hparses, hlookup, hallows⟩)
        | true =>
          cases hmarker : e.marker.isRecognized with
          | false => exact .inl ⟨_, .unmarked hparses hlookup hallows hmarker⟩
          | true => exact .inr (.inr ⟨text, source, hparses, e, hlookup, hallows, hmarker⟩)

/-- What the first phase does with a source that can be parsed. -/
theorem Parses.examine {text : String} {source : Source Span} (h : Parses tree path text source) :
    Session.examine r tree path =
      match r.lookup source.entity.val with
      | none => .error (.unknownEntity path source.entity.val)
      | some e =>
        if !r.policy.allows e.name then .ok none
        else if !e.marker.isRecognized then .error (.ineligibleEntity path source.entity.val)
        else .ok (some ⟨path, text, source⟩) := by
  simp only [Session.examine, h.read, h.parsed]
  rfl

theorem FailsEarly.examine {fault : RunFault} (h : FailsEarly r tree path fault) :
    Session.examine r tree path = .error fault := by
  cases h with
  | unreadable hread => simp [Session.examine, hread]
  | unparsable hread hparse => simp [Session.examine, hread, hparse]
  | unknown hparses hlookup => simp [hparses.examine, hlookup]
  | unmarked hparses hlookup hallows hmarker =>
    simp [hparses.examine, hlookup, hallows, hmarker]

theorem Excluded.examine (h : Excluded r tree path) : Session.examine r tree path = .ok none := by
  obtain ⟨text, source, e, hparses, hlookup, hallows⟩ := h
  simp [hparses.examine, hlookup, hallows]

theorem Admitted.examine {text : String} {source : Source Span}
    (h : Admitted r tree path text source) :
    Session.examine r tree path = .ok (some ⟨path, text, source⟩) := by
  obtain ⟨hparses, e, hlookup, hallows, hmarker⟩ := h
  simp [hparses.examine, hlookup, hallows, hmarker]

theorem examine_eq_error_iff {fault : RunFault} :
    Session.examine r tree path = .error fault ↔ FailsEarly r tree path fault := by
  refine ⟨?_, FailsEarly.examine⟩
  intro h
  rcases fate r tree path with ⟨fault', hfails⟩ | hexcluded | ⟨text, source, hadmitted⟩
  · rw [hfails.examine] at h
    cases h
    exact hfails
  · rw [hexcluded.examine] at h
    cases h
  · rw [hadmitted.examine] at h
    cases h

theorem excluded_of_examine (h : Session.examine r tree path = .ok none) :
    Excluded r tree path := by
  rcases fate r tree path with ⟨fault', hfails⟩ | hexcluded | ⟨text, source, hadmitted⟩
  · rw [hfails.examine] at h
    cases h
  · exact hexcluded
  · rw [hadmitted.examine] at h
    cases h

theorem admitted_of_examine {parsed : ParsedSource}
    (h : Session.examine r tree path = .ok (some parsed)) :
    parsed.path = path ∧ Admitted r tree path parsed.text parsed.source := by
  rcases fate r tree path with ⟨fault', hfails⟩ | hexcluded | ⟨text, source, hadmitted⟩
  · rw [hfails.examine] at h
    cases h
  · rw [hexcluded.examine] at h
    cases h
  · rw [hadmitted.examine] at h
    cases h
    exact ⟨rfl, hadmitted⟩

/-! ### The second phase -/

section Compile

variable {schema : Schema} {defaults : Defaults} {sources : List Path}
  {examined : List (Option ParsedSource)} {groups types : TypeGroups}

/-- An excluded source is never compiled. -/
theorem Excluded.not_failsToCompile (h : Excluded r tree path) (fault : RunFault) :
    ¬ FailsToCompile r tree schema defaults path fault := by
  rintro ⟨text, source, _, hadmitted, _⟩
  have hsame := h.examine.symm.trans hadmitted.examine
  cases hsame

/-- An admitted source has one text and one meaning. -/
theorem Admitted.unique {text text' : String} {source source' : Source Span}
    (h : Admitted r tree path text source) (h' : Admitted r tree path text' source') :
    text = text' ∧ source = source' := by
  have hsame := h.examine.symm.trans h'.examine
  cases hsame
  exact ⟨rfl, rfl⟩

/-- The second phase stops at the first admitted source that does not compile. -/
theorem firstFails_of_foldlM
    (hexamined : List.Forall₂ (fun path x => Session.examine r tree path = .ok x) sources examined)
    {fault : RunFault}
    (h : (examined.filterMap id).foldlM (compileInto schema defaults) groups = .error fault) :
    FirstFails (FailsToCompile r tree schema defaults) sources fault := by
  induction hexamined generalizing groups with
  | nil => cases h
  | @cons path x sources examined hx _ ih =>
    cases x with
    | none =>
      exact .cons (excluded_of_examine hx).not_failsToCompile (ih h)
    | some parsed =>
      obtain ⟨hpath, hadmitted⟩ := admitted_of_examine hx
      rw [List.filterMap_cons_some (f := id) rfl, List.foldlM_cons] at h
      cases hcompile : parsed.source.compile schema defaults with
      | error refused =>
        simp only [compileInto, hcompile] at h
        cases h
        rw [hpath]
        exact .head ⟨_, _, refused, hadmitted, hcompile, rfl⟩
      | ok dtos =>
        simp only [compileInto, hcompile] at h
        refine .cons ?_ (ih h)
        rintro fault' ⟨text, source, refused, hadmitted', hrefused, _⟩
        obtain ⟨_, rfl⟩ := hadmitted.unique hadmitted'
        rw [hcompile] at hrefused
        cases hrefused

/-- A second phase that comes to its end adds up what the sources contribute. -/
theorem contributes_of_foldlM
    (hexamined : List.Forall₂ (fun path x => Session.examine r tree path = .ok x) sources examined)
    (h : (examined.filterMap id).foldlM (compileInto schema defaults) groups = .ok types) :
    ∃ parts, List.Forall₂ (Contributes r tree schema defaults) sources parts ∧
      types = (parts.filterMap id).foldl (fun groups part => groups.add part.1 part.2) groups := by
  induction hexamined generalizing groups with
  | nil =>
    cases h
    exact ⟨[], .nil, rfl⟩
  | @cons path x sources examined hx _ ih =>
    cases x with
    | none =>
      obtain ⟨parts, hparts, rfl⟩ := ih h
      exact ⟨none :: parts, .cons (.nothing (excluded_of_examine hx)) hparts, rfl⟩
    | some parsed =>
      rw [List.filterMap_cons_some (f := id) rfl, List.foldlM_cons] at h
      cases hcompile : parsed.source.compile schema defaults with
      | error refused =>
        simp only [compileInto, hcompile] at h
        cases h
      | ok dtos =>
        simp only [compileInto, hcompile] at h
        obtain ⟨parts, hparts, rfl⟩ := ih h
        exact ⟨some (parsed.source.entity.val, dtos) :: parts,
          .cons (.types (admitted_of_examine hx).2 hcompile) hparts, rfl⟩

end Compile

end Session

/-! ### Types by entity -/

namespace TypeGroups

variable {parts : List (Name × List Dto)} {entity : Name}

theorem typesOf_concat (parts : List (Name × List Dto)) (entity other : Name) (types : List Dto) :
    typesOf (parts ++ [(other, types)]) entity =
      typesOf parts entity ++ if other = entity then types else [] := by
  by_cases h : other = entity <;> simp [typesOf, List.filter_append, h]

theorem typesOf_eq_nil (h : entity ∉ parts.map (·.1)) : typesOf parts entity = [] := by
  have hnone : parts.filter (·.1 == entity) = [] := by
    rw [List.filter_eq_nil_iff]
    intro part hpart heq
    exact h (List.mem_map.mpr ⟨part, hpart, eq_of_beq heq⟩)
  rw [typesOf, hnone, List.flatMap_nil]

theorem any_collect (parts : List (Name × List Dto)) (entity : Name) :
    (collect parts).any (·.1 == entity) = true ↔ entity ∈ parts.map (·.1) := by
  rw [collect, List.any_map, List.any_eq_true, ← List.mem_eraseDups (l := parts.map (·.1))]
  constructor
  · rintro ⟨name, hname, heq⟩
    exact eq_of_beq heq ▸ hname
  · intro h
    exact ⟨entity, h, beq_self_eq_true entity⟩

/-- One more part goes to the end of the group of its entity, or starts it. -/
theorem collect_concat (parts : List (Name × List Dto)) (entity : Name) (types : List Dto) :
    collect (parts ++ [(entity, types)]) = (collect parts).add entity types := by
  have hkeys : ((parts ++ [(entity, types)]).map (·.1)).eraseDups =
      (parts.map (·.1)).eraseDups ++ ([entity].removeAll (parts.map (·.1))).eraseDups := by
    rw [List.map_append, List.eraseDups_append]
    rfl
  by_cases hknown : entity ∈ parts.map (·.1)
  · have hold : [entity].removeAll (parts.map (·.1)) = [] := by
      simp [List.removeAll, hknown]
    rw [add, if_pos ((any_collect parts entity).mpr hknown), collect, hkeys, hold, collect,
      List.map_map]
    simp only [List.eraseDups_nil, List.append_nil]
    apply List.map_congr_left
    intro name _
    by_cases hname : name = entity
    · simp [typesOf_concat, hname]
    · simp [typesOf_concat, hname, Ne.symm hname]
  · have hnew : [entity].removeAll (parts.map (·.1)) = [entity] := by
      simp [List.removeAll, hknown]
    rw [add, if_neg (mt (any_collect parts entity).mp hknown), collect, hkeys, hnew, collect,
      List.map_append]
    congr 1
    · apply List.map_congr_left
      intro name hname
      have hne : entity ≠ name := by
        rintro rfl
        exact hknown (List.mem_eraseDups.mp hname)
      simp [typesOf_concat, hne]
    · simp [List.eraseDups_cons, typesOf_concat, typesOf_eq_nil hknown]

theorem foldl_add (parts : List (Name × List Dto)) :
    parts.foldl (fun (groups : TypeGroups) part => groups.add part.1 part.2) [] =
      collect parts := by
  induction parts using List.reverseRecOn with
  | nil => rfl
  | append_singleton parts part ih => rw [List.foldl_concat, ih, collect_concat]

theorem count_ne_zero_iff (groups : TypeGroups) :
    groups.count ≠ 0 ↔ ∃ group ∈ groups, group.2 ≠ [] := by
  induction groups with
  | nil => simp [count]
  | cons group groups ih =>
    have hcount : count (group :: groups) = group.2.length + count groups := rfl
    rw [hcount, List.exists_mem_cons_iff, ← ih, ← List.length_pos_iff]
    omega

end TypeGroups

/-- Resolving a registry is finalizing it. -/
theorem Registry.resolve_cases (r : Registry) :
    (∃ fault, r.finalize.1 = .error fault ∧ SchemaStore.resolve r = (.error fault, r)) ∨
      ∃ store, r.finalize = (.ok (), store) ∧
        SchemaStore.resolve r = (.ok (SchemaStore.schema store), store) := by
  have hfinalize : SchemaStore.finalize r = r.finalize := rfl
  rcases r.finalize_cases with ⟨fault, hrefused⟩ | ⟨_, _, hgranted⟩
  · refine .inl ⟨fault, by rw [hrefused], ?_⟩
    rw [SchemaStore.resolve, hfinalize, hrefused]
  · refine .inr ⟨_, hgranted, ?_⟩
    rw [SchemaStore.resolve, hfinalize, hgranted]

/-- **The outcome of a run.** Take any session, whatever the runs before have left in it, any files
and any list of sources. If the run fails, it leaves no types, and the fault is that of the first
source that fails the first phase; if there is none, that of finalizing the registry; if that
succeeds, that of the first admitted source that does not compile. If the run succeeds, every
source contributes: an excluded one nothing, an admitted one the types it compiles to. The types
are then kept by entity, the entities in the order of their first appearance, and the answer tells
whether there is any type. -/
theorem Session.processSources_outcome (s : Session Registry) (tree : FileTree)
    (sources : List Path) :
    match s.processSources tree sources with
    | (.error fault, after) => after.types = [] ∧
        (FirstFails (FailsEarly s.store tree) sources fault ∨
          (∀ path ∈ sources, ∀ early, ¬ FailsEarly s.store tree path early) ∧
            ((∃ refused, s.store.finalize.1 = .error refused ∧ fault = .schema (.schema refused)) ∨
              ∃ store, s.store.finalize = (.ok (), store) ∧
                FirstFails (FailsToCompile s.store tree (SchemaStore.schema store)
                  s.settings.defaults) sources fault))
    | (.ok produced, after) =>
        ∃ store parts, s.store.finalize = (.ok (), store) ∧
          List.Forall₂ (Contributes s.store tree (SchemaStore.schema store) s.settings.defaults)
            sources parts ∧
          after.types = TypeGroups.collect (parts.filterMap id) ∧
          (produced = true ↔ ∃ group ∈ after.types, group.2 ≠ []) := by
  simp only [processSources]
  cases hphase : sources.mapM (examine s.store tree) with
  | error fault =>
    exact ⟨rfl, .inl ((firstFails_of_mapM_eq_error hphase).congr fun _ _ => examine_eq_error_iff)⟩
  | ok examined =>
    have hexamined := forall₂_of_mapM_eq_ok hphase
    have hpassed : ∀ path ∈ sources, ∀ early, ¬ FailsEarly s.store tree path early := by
      intro path hpath early hfails
      obtain ⟨x, _, hx⟩ := exists_mem_of_forall₂ hexamined.flip hpath
      rw [hfails.examine] at hx
      cases hx
    -- the schema is completed once, behind all reading and before the first source is compiled
    rcases s.store.resolve_cases with ⟨refused, hrefused, hresolve⟩ | ⟨store, hfinal, hresolve⟩
    · rw [hresolve]
      exact ⟨rfl, .inr ⟨hpassed, .inl ⟨refused, hrefused, rfl⟩⟩⟩
    · simp only [hresolve]
      cases hcompile : (examined.filterMap id).foldlM
          (compileInto (SchemaStore.schema store) s.settings.defaults) [] with
      | error fault =>
        exact ⟨rfl, .inr ⟨hpassed, .inr ⟨store, hfinal, firstFails_of_foldlM hexamined hcompile⟩⟩⟩
      | ok types =>
        obtain ⟨parts, hparts, htypes⟩ := contributes_of_foldlM hexamined hcompile
        refine ⟨store, parts, hfinal, hparts, ?_, ?_⟩
        · rw [htypes, TypeGroups.foldl_add]
        · rw [← TypeGroups.count_ne_zero_iff]
          simp

end Projection
