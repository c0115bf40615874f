import Projection.FileTree
import Projection.Rendering

/-!
# Emission

An emitter writes the rendering of DTO types to files of one directory, and remembers their paths:
no path is written twice. A path is remembered before it is written, so it stays taken if writing
fails.
-/

namespace Projection

/-- What can go wrong in emission. -/
inductive EmitFault where
  | unwritable (path : Path) (fault : FileFault)
  | collision (path : Path)
  | unknownEntity (entity : Name)
  deriving DecidableEq, Repr

/-- The fault in words. -/
def EmitFault.message : EmitFault → String
  | unwritable path fault => "Failed to write \"" ++ path ++ "\": " ++ fault.text
  | collision path => "\"" ++ path ++ "\" would be written twice in one run"
  | unknownEntity entity => "entity `" ++ entity ++ "` disappeared from the schema"

/-- A DTO type that is to be emitted, with its entity and the sources of the run. -/
structure Job where
  dto : Dto
  entity : Name
  docs : List Path
  deriving Repr

/-- Where output goes, and the paths that are taken. -/
structure Emitter where
  directory : Path
  entityModule : String
  written : List Path := []
  deriving Repr

namespace Emitter

/-- The path for a DTO type. -/
def pathOf (e : Emitter) (d : Dto) : Path :=
  Path.join e.directory (Rendering.fileName d)

/-- The rendering of a job. -/
def textOf (e : Emitter) (job : Job) : String :=
  (Rendering.ofDto job.dto job.entity job.dto.outline.mutable e.entityModule).text

end Emitter

/-- An emitter and the files it works on. -/
structure Workspace where
  emitter : Emitter
  tree : FileTree

namespace Workspace

/-- The path is taken. -/
def hasWritten (w : Workspace) (path : Path) : Bool :=
  w.emitter.written.any fun q => Path.order path q == .eq

/-- Emits one job. -/
def emit (w : Workspace) (job : Job) : Except EmitFault Unit × Workspace :=
  let path := w.emitter.pathOf job.dto
  if w.hasWritten path then (.error (.collision path), w)
  else
    let w := { w with emitter := { w.emitter with written := w.emitter.written ++ [path] } }
    match w.tree.makeDirs w.emitter.directory with
    | (.error fault, tree) => (.error (.unwritable w.emitter.directory fault), { w with tree })
    | (.ok (), tree) =>
      match tree.write path (w.emitter.textOf job).toUTF8 with
      | .error fault => (.error (.unwritable path fault), { w with tree })
      | .ok tree => (.ok (), { w with tree })

/-- Emits jobs in their order, up to the first fault, and counts them. -/
def emitAll (w : Workspace) : List (Except EmitFault Job) → Except EmitFault Nat × Workspace
  | [] => (.ok 0, w)
  | .error fault :: _ => (.error fault, w)
  | .ok job :: jobs =>
    match w.emit job with
    | (.error fault, w) => (.error fault, w)
    | (.ok (), w) =>
      match w.emitAll jobs with
      | (.ok n, w) => (.ok (n + 1), w)
      | (.error fault, w) => (.error fault, w)

end Workspace

end Projection
