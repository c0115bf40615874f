import Projection.CommandLine
import Projection.Document.Toml
import Projection.Session

/-!
# Runs

A run takes its settings from the first configuration file there is: the one that was asked for, the
one of the project, the one of the system. What the command line says goes before them. It reads the
catalog, compiles the sources that it finds and emits their types, unless they were only to be
checked. Runs are functions of the file tree, and answer the tree that they leave.
-/

namespace Projection.Run

/-- The configuration file of a project. -/
def projectConfig : Path := "prism/config.toml"

/-- Reads a configuration file. -/
def readSettings (tree : FileTree) (path : Path) : Except RunFault Settings :=
  if !tree.contains path then .error (.config (.missing path))
  else
    match tree.read path with
    | .error fault => .error (.unreadable path fault)
    | .ok text =>
      match (Toml.read? text).bind Settings.ofDocument? with
      | some settings => .ok settings
      | none => .error (.config (.malformed path))

/-- The configuration file that holds, if there is any. -/
def configPath? (tree : FileTree) (asked system : Option Path) : Option Path :=
  match asked with
  | some path => some path
  | none => (projectConfig :: system.toList).find? tree.contains

/-- The settings before the command line. -/
def settings (tree : FileTree) (asked system : Option Path) : Except RunFault Settings :=
  match configPath? tree asked system with
  | some path => readSettings tree path
  | none => .ok {}

/-- The settings with what the command line says. -/
def override (s : Settings) (args : Arguments) : Settings :=
  { s with
    sourceDirs := if args.sourceDirs.isEmpty then s.sourceDirs else args.sourceDirs
    defaults := { s.defaults with mutable := s.defaults.mutable || args.mutable }
    directory := args.output.getD s.directory }

/-- Reads a catalog. -/
def readCatalog (tree : FileTree) (path : Path) (policy : Policy) : Except RunFault Registry :=
  match tree.read path with
  | .error fault => .error (.schema (.unreadable path fault.text))
  | .ok text => (Catalog.registry path policy (Toml.read? text)).mapError .schema

/-- The session of a command line. -/
def session (tree : FileTree) (args : Arguments) (system : Option Path) :
    Except RunFault (Session Registry) := do
  let s := override (← settings tree args.config system) args
  return { settings := s, store := ← readCatalog tree args.schema s.policy }

/-- Emits the types of a session. -/
def emit (tree : FileTree) (s : Session Registry) : Except RunFault Bool × FileTree :=
  let emitter : Emitter := {
    directory := s.settings.directory
    entityModule := s.settings.entityModule }
  match Workspace.emitAll ⟨emitter, tree⟩ s.jobs with
  | (.ok _, w) => (.ok true, w.tree)
  | (.error fault, w) => (.error (.emit fault), w.tree)

/-- Runs what a command line asks for, and tells whether there is any type. -/
def run (tree : FileTree) (args : Arguments) (system : Option Path) :
    Except RunFault Bool × FileTree :=
  match session tree args system with
  | .error fault => (.error fault, tree)
  | .ok s =>
    match s.process tree with
    | (.ok true, s) => if args.check then (.ok true, tree) else emit tree s
    | (result, _) => (result, tree)

end Projection.Run
