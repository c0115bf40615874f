import Projection.Session

/-!
# Notices

What the user is told of a run that failed: one notice for each diagnostic of a source, or one for
the fault itself.
-/

namespace Projection

/-- A message to the user. -/
inductive Notice where
  /-- A diagnostic in the text of a source. -/
  | diagnostic (path : Path) (text : String) (diagnostic : Diagnostic)
  | fault (fault : RunFault)
  deriving Repr

/-- The notices of a fault. -/
def RunFault.notices : RunFault → List Notice
  | parse path report text | compile path report text =>
    report.diagnostics.map (.diagnostic path text)
  | fault => [.fault fault]

/-- The code of a fault that is not in the text of a source. -/
def RunFault.code? : RunFault → Option String
  | unreadable .. => some "prism::read"
  | parse .. | compile .. => none
  | unknownEntity .. => some "prism::unknown_entity"
  | ineligibleEntity .. => some "prism::ineligible_entity"
  | schema _ => some "prism::schema"
  | emit _ => some "prism::emit"
  | config _ => some "prism::config"

/-- What the user can do about a fault. -/
def RunFault.help? : RunFault → Option String
  | unknownEntity .. => some "check the `export` statement against the schema catalog"
  | ineligibleEntity .. => some "give the entity a `marker` in the schema catalog"
  | _ => none

/-- The fault follows from another one. -/
def RunFault.hasCause : RunFault → Bool
  | unreadable .. | schema _ | emit _ => true
  | _ => false

namespace Notice

/-- The notice in words. -/
def text : Notice → String
  | diagnostic path _ d => RunFault.failedToParse path ++ d.message
  | fault f => f.message

/-- The code of a notice. -/
def code? : Notice → Option String
  | diagnostic _ _ d => d.code.map (·.text)
  | fault f => f.code?

/-- What the user can do. -/
def help? : Notice → Option String
  | diagnostic _ _ d => d.help
  | fault f => f.help?

/-- The text that the notice points into. -/
def source? : Notice → Option String
  | diagnostic _ source _ => some source
  | fault _ => none

/-- The notice follows from another fault. -/
def hasCause : Notice → Bool
  | diagnostic .. => false
  | fault f => f.hasCause

/-- The places that the notice points at. -/
def labels : Notice → List Label
  | diagnostic _ _ d => d.labels
  | fault _ => []

end Notice

end Projection
