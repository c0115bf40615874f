import Projection.Catalog
import Projection.Discovery
import Projection.Emitter
import Projection.Settings
import Projection.Source.Parser

/-!
# Sessions

A session compiles sources against a store of entities. All sources are parsed first, and only the
names of their entities are looked up; then the store is finalized, and every source is compiled
against the schema that this gives. The types of a run are kept by entity. A run that fails leaves
no types.
-/

namespace Projection

/-- What can be wrong with a configuration file. -/
inductive ConfigFault where
  | missing (path : Path)
  | malformed (path : Path)
  deriving DecidableEq, Repr

/-- The fault in words. -/
def ConfigFault.message : ConfigFault → String
  | missing path => "Missing configuration file: " ++ path
  | malformed path => "Failed to parse TOML configuration \"" ++ path ++ "\""

/-- What can go wrong in a run. A source that is refused comes with its text. -/
inductive RunFault where
  | unreadable (path : Path) (fault : FileFault)
  | parse (path : Path) (report : Report) (text : String)
  | compile (path : Path) (report : Report) (text : String)
  | unknownEntity (path : Path) (entity : Name)
  | ineligibleEntity (path : Path) (entity : Name)
  | schema (fault : CatalogFault)
  | emit (fault : EmitFault)
  | config (fault : ConfigFault)
  deriving Repr

namespace RunFault

/-- The markers of eligible entities, in words. -/
def acceptedMarkers : String :=
  let names := (Marker.all.filter Marker.isRecognized).map Marker.text
  ", ".intercalate names.dropLast ++ " or " ++ names.getLast?.getD ""

/-- The start of a message about a source. -/
def failedToParse (path : Path) : String :=
  "Failed to parse \"" ++ path ++ "\": "

/-- The fault in words. -/
def message : RunFault → String
  | unreadable path fault => "Failed to read \"" ++ path ++ "\": " ++ fault.text
  | parse path report _ | compile path report _ => failedToParse path ++ report.text
  | unknownEntity path entity =>
    failedToParse path ++ "entity `" ++ entity ++ "` does not exist in the schema"
  | ineligibleEntity path entity =>
    failedToParse path ++ "entity `" ++ entity ++ "` is not marked as " ++ acceptedMarkers
  | schema fault => "Schema error: " ++ fault.message
  | emit fault => "Emit error: " ++ fault.message
  | config fault => "Configuration error: " ++ fault.message

/-- The source that a fault is about. -/
def path? : RunFault → Option Path
  | unreadable path _ | parse path _ _ | compile path _ _ | unknownEntity path _
  | ineligibleEntity path _ => some path
  | schema _ | emit _ | config _ => none

/-- The report on the text of a source. -/
def report? : RunFault → Option Report
  | parse _ report _ | compile _ report _ => some report
  | _ => none

end RunFault

/-- A source that was parsed. -/
structure ParsedSource where
  path : Path
  text : String
  source : Source Span

/-- The types of an entity, in the order in which they were compiled. -/
abbrev TypeGroups := List (Name × List Dto)

/-- Adds types to those of an entity; a new entity comes last. -/
def TypeGroups.add (groups : TypeGroups) (entity : Name) (types : List Dto) : TypeGroups :=
  if groups.any (·.1 == entity) then
    groups.map fun g => if g.1 == entity then (entity, g.2 ++ types) else g
  else groups ++ [(entity, types)]

/-- The number of types. -/
def TypeGroups.count (groups : TypeGroups) : Nat :=
  groups.foldr (fun group count => group.2.length + count) 0

/-- The state of a session: the sources of its last run, and the types that came of them. -/
structure Session (σ : Type) where
  settings : Settings
  store : σ
  docs : List Path := []
  types : TypeGroups := []

namespace Session

variable {σ : Type} [SchemaStore σ]

/-- Reads and parses a source and looks at its entity. A source is skipped if its entity is not
included. -/
def examine (store : σ) (tree : FileTree) (path : Path) : Except RunFault (Option ParsedSource) :=
  match tree.read path with
  | .error fault => .error (.unreadable path fault)
  | .ok text =>
    match Source.parse text with
    | .error report => .error (.parse path report text)
    | .ok source =>
      match SchemaStore.lookup store source.entity.val with
      | none => .error (.unknownEntity path source.entity.val)
      | some entity =>
        if !SchemaStore.includes store entity then .ok none
        else if !entity.marker.isRecognized then
          .error (.ineligibleEntity path source.entity.val)
        else .ok (some ⟨path, text, source⟩)

/-- Compiles one more source. -/
def compileInto (schema : Schema) (defaults : Defaults) (groups : TypeGroups)
    (parsed : ParsedSource) : Except RunFault TypeGroups :=
  match parsed.source.compile schema defaults with
  | .ok types => .ok (groups.add parsed.source.entity.val types)
  | .error fault => .error (.compile parsed.path fault.report parsed.text)

/-- Compiles sources and tells whether there is any type. -/
def processSources (s : Session σ) (tree : FileTree) (sources : List Path) :
    Except RunFault Bool × Session σ :=
  let s := { s with docs := sources, types := [] }
  match sources.mapM (examine s.store tree) with
  | .error fault => (.error fault, s)
  | .ok examined =>
    match SchemaStore.resolve s.store with
    | (.error fault, store) => (.error (.schema (.schema fault)), { s with store })
    | (.ok schema, store) =>
      let s := { s with store }
      match (examined.filterMap id).foldlM (compileInto schema s.settings.defaults) [] with
      | .error fault => (.error fault, s)
      | .ok types => (.ok (types.count != 0), { s with types })

/-- Compiles all sources that are found. -/
def process (s : Session σ) (tree : FileTree) : Except RunFault Bool × Session σ :=
  match tree.sources s.settings.sourceDirs s.settings.extension with
  | .error (path, fault) => (.error (.unreadable path fault), s)
  | .ok sources => s.processSources tree sources

/-- What is to be emitted. An entity that is not found any more is a fault at its place. -/
def jobs (s : Session σ) : List (Except EmitFault Job) :=
  s.types.flatMap fun (entity, types) =>
    match SchemaStore.lookup s.store entity with
    | some found => types.map fun dto => .ok ⟨dto, found.name, s.docs⟩
    | none => [.error (.unknownEntity entity)]

end Session

end Projection
