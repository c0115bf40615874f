import Projection.Proofs.Dto.Distinct
import Projection.Proofs.Session.Outcome

/-!
# The names of the types of an entity

A source that declares a type twice is refused. But several sources may export one entity, and a run
puts the types of all of them into the group of that entity without another look at their names. So
the types of a group have distinct names exactly if no two sources of the run that export its entity
declare a type of one name (`Session.processSources_distinct_iff`).
`Offices.badges_are_not_distinct` is a run that succeeds with two types of one name.
-/

namespace Projection

namespace Session

variable {r : Registry} {tree : FileTree} {path : Path} {schema : Schema} {defaults : Defaults}
  {part : Option (Name × List Dto)}

/-- The source is admitted, exports the entity and declares a type of this name. -/
def DeclaresType (r : Registry) (tree : FileTree) (entity type : Name) (path : Path) : Prop :=
  ∃ text source, Admitted r tree path text source ∧ source.entity.val = entity ∧
    type ∈ source.declarations.map (·.name.val)

/-- The names of the types that a source adds to the group of an entity. -/
def namesIn (entity : Name) : Option (Name × List Dto) → List Name
  | some (other, types) => if other = entity then types.map Dto.name else []
  | none => []

/-! ### One source -/

theorem Contributes.mem_namesIn_iff (h : Contributes r tree schema defaults path part)
    (entity type : Name) :
    type ∈ namesIn entity part ↔ DeclaresType r tree entity type path := by
  cases h with
  | nothing hexcluded =>
    refine ⟨fun hmem => absurd hmem List.not_mem_nil, ?_⟩
    rintro ⟨text, source, hadmitted, _, _⟩
    have hsame := hexcluded.examine.symm.trans hadmitted.examine
    cases hsame
  | types hadmitted hcompile =>
    have hnames := (Source.names_of_compile hcompile).1
    constructor
    · intro hmem
      rw [namesIn] at hmem
      split at hmem
      · rename_i hentity
        exact ⟨_, _, hadmitted, hentity, hnames ▸ hmem⟩
      · cases hmem
    · rintro ⟨text, source, hadmitted', hentity, hmem⟩
      obtain ⟨_, rfl⟩ := hadmitted.unique hadmitted'
      rw [namesIn, if_pos hentity, hnames]
      exact hmem

theorem Contributes.nodup_namesIn (h : Contributes r tree schema defaults path part)
    (entity : Name) : (namesIn entity part).Nodup := by
  cases h with
  | nothing => exact List.nodup_nil
  | types _ hcompile =>
    rw [namesIn]
    split
    · exact (Source.names_of_compile hcompile).2
    · exact List.nodup_nil

/-! ### All sources -/

/-- The names in the group of an entity are those that the sources add, one source after the
other. -/
theorem map_name_typesOf (parts : List (Option (Name × List Dto))) (entity : Name) :
    (TypeGroups.typesOf (parts.filterMap id) entity).map Dto.name =
      parts.flatMap (namesIn entity) := by
  induction parts with
  | nil => rfl
  | cons part parts ih =>
    rw [List.flatMap_cons, ← ih]
    cases part with
    | none => rfl
    | some part =>
      obtain ⟨other, types⟩ := part
      by_cases h : other = entity <;> simp [TypeGroups.typesOf, namesIn, h]

/-- What a run that succeeds goes through: it examines all sources, finalizes the registry and
compiles what is left of the sources. -/
theorem processSources_eq_ok {s after : Session Registry} {sources : List Path} {produced : Bool}
    (h : s.processSources tree sources = (.ok produced, after)) :
    ∃ examined, sources.mapM (examine s.store tree) = .ok examined ∧
      s.store.finalize = (.ok (), after.store) ∧
      (examined.filterMap id).foldlM (compileInto (SchemaStore.schema after.store)
        s.settings.defaults) [] = .ok after.types := by
  simp only [processSources] at h
  cases hphase : sources.mapM (examine s.store tree) with
  | error fault => simp [hphase] at h
  | ok examined =>
    rcases s.store.resolve_cases with ⟨refused, _, hresolve⟩ | ⟨store, hfinal, hresolve⟩
    · simp [hphase, hresolve] at h
    · simp only [hphase, hresolve] at h
      split at h
      · cases h
      · rename_i types hcompile
        cases h
        exact ⟨examined, rfl, hfinal, hcompile⟩

/-- A run that succeeds leaves what its sources contribute, by entity. -/
theorem contributes_of_processSources {s after : Session Registry} {sources : List Path}
    {produced : Bool} (h : s.processSources tree sources = (.ok produced, after)) :
    ∃ store parts, s.store.finalize = (.ok (), store) ∧
      List.Forall₂ (Contributes s.store tree (SchemaStore.schema store) s.settings.defaults)
        sources parts ∧
      after.types = TypeGroups.collect (parts.filterMap id) := by
  obtain ⟨examined, hphase, hfinal, hcompile⟩ := processSources_eq_ok h
  obtain ⟨parts, hparts, htypes⟩ := contributes_of_foldlM (forall₂_of_mapM_eq_ok hphase) hcompile
  exact ⟨after.store, parts, hfinal, hparts, htypes.trans (TypeGroups.foldl_add _)⟩

end Session

/-- **Types of one entity.** Take a run that succeeds. In the group of an entity no two types have
one name if and only if no two of the sources, at different places of the list, are admitted, export
that entity and declare a type of one name. -/
theorem Session.processSources_distinct_iff {s after : Session Registry} {tree : FileTree}
    {sources : List Path} {produced : Bool}
    (h : s.processSources tree sources = (.ok produced, after)) {entity : Name}
    {types : List Dto} (hgroup : (entity, types) ∈ after.types) :
    (types.map Dto.name).Nodup ↔ sources.Pairwise fun p q => ∀ type,
      DeclaresType s.store tree entity type p → ¬ DeclaresType s.store tree entity type q := by
  obtain ⟨store, parts, _, hparts, hafter⟩ := contributes_of_processSources h
  rw [hafter, TypeGroups.collect, List.mem_map] at hgroup
  obtain ⟨name, _, heq⟩ := hgroup
  obtain ⟨rfl, rfl⟩ : name = entity ∧ _ = types := Prod.mk.inj heq
  rw [map_name_typesOf, List.nodup_flatMap]
  have hnodup : ∀ part ∈ parts, (namesIn name part).Nodup := by
    intro part hpart
    obtain ⟨_, _, hpart⟩ := exists_mem_of_forall₂ hparts hpart
    exact hpart.nodup_namesIn name
  rw [and_iff_right hnodup]
  refine (pairwise_iff_of_forall₂ hparts ?_).symm
  intro p part q part' hp hq
  simp only [Function.onFun, List.Disjoint, hp.mem_namesIn_iff, hq.mem_namesIn_iff]

/-! ### An example

Two offices have a badge each for employees. Each source is fine on its own, and the run has two
types with the name `Badge`. -/

namespace Offices

def employee : Entity where
  name := "Employee"
  marker := .entity
  attributes := [.id "id" "Long", .scalar "name" "String", .scalar "phone" "String"]
  distinct := by decide

def tree : FileTree where
  nodes := [(["Front.dto"], .file "export Employee\nBadge \x7b id \x7d\n".toUTF8),
    (["Back.dto"], .file "export Employee\nBadge \x7b name \x7d\n".toUTF8)]

def session : Session Registry where
  settings := {}
  store := { entities := [employee] }

def sources : List Path :=
  ["Front.dto", "Back.dto"]

theorem badges_are_not_distinct :
    ∃ after types, session.processSources tree sources = (.ok true, after) ∧
      ("Employee", types) ∈ after.types ∧ types.map Dto.name = ["Badge", "Badge"] ∧
      ¬ sources.Pairwise fun p q => ∀ type,
        Session.DeclaresType session.store tree "Employee" type p →
          ¬ Session.DeclaresType session.store tree "Employee" type q := by
  have hanswer : (session.processSources tree sources).1.toOption = some true := by
    decide +kernel
  have hnames : (session.processSources tree sources).2.types.map
      (fun group => (group.1, group.2.map Dto.name)) = [("Employee", ["Badge", "Badge"])] := by
    decide +kernel
  rcases hrun : session.processSources tree sources with ⟨answer, after⟩
  rw [hrun] at hanswer hnames
  cases answer with
  | error fault => cases hanswer
  | ok produced =>
    cases hanswer
    obtain ⟨⟨entity, types⟩, htypes, hgroup⟩ := List.map_eq_singleton_iff.mp hnames
    obtain ⟨rfl, hbadges⟩ := Prod.mk.inj hgroup
    have hmem : ("Employee", types) ∈ after.types := htypes ▸ List.mem_singleton.mpr rfl
    refine ⟨after, types, rfl, hmem, hbadges, ?_⟩
    rw [← Session.processSources_distinct_iff hrun hmem, hbadges]
    decide

end Offices

end Projection
