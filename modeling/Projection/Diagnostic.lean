import Projection.Span

/-!
# Diagnostics

A diagnostic tells what is wrong with a source and where: a message with a code, labels on spans of
the source, and sometimes a hint. A `Report` holds every diagnostic of a source that was refused.
-/

namespace Projection

/-- How grave a diagnostic is. -/
inductive Severity where
  | error
  | warning
  deriving DecidableEq, Repr

/-- The word a diagnostic starts with. -/
def Severity.text : Severity → String
  | error => "error"
  | warning => "warning"

/-- What a code is about, seen from far. -/
inductive Category where
  | parse
  | semantic
  | unresolvedProperty
  | duplicateProperty
  | computedDependency
  | unknownEntity
  deriving DecidableEq, Repr

/-- The category in words. -/
def Category.text : Category → String
  | parse => "parse error"
  | semantic => "semantic error"
  | unresolvedProperty => "unresolved property"
  | duplicateProperty => "duplicate property"
  | computedDependency => "computed dependency error"
  | unknownEntity => "unknown entity"

/-- Everything a source can be refused for. -/
inductive Code where
  | unterminatedString
  | unexpectedCharacter
  | invalidEscape
  | unterminatedComment
  | numberOutOfRange
  | unexpectedToken
  | incompleteInput
  | unknownModifier
  | unknownMacro
  | duplicateMacro
  | ineligibleTarget
  | idleNegative
  | nestedNotAllowed
  | duplicateType
  | duplicateNegative
  | itemNotAllowed
  | unresolvedProperty
  | duplicateProperty
  | unresolvedDependency
  | deletedSelected
  | nonNullOutsideInput
  | conflictingModifiers
  | invalidMutability
  | invalidUserProperty
  | unknownEntity
  deriving DecidableEq, Repr

namespace Code

/-- All codes in the order of their numbers. -/
def all : List Code :=
  [unterminatedString, unexpectedCharacter, invalidEscape, unterminatedComment, numberOutOfRange,
    unexpectedToken, incompleteInput, unknownModifier, unknownMacro, duplicateMacro,
    ineligibleTarget, idleNegative, nestedNotAllowed, duplicateType, duplicateNegative,
    itemNotAllowed, unresolvedProperty, duplicateProperty, unresolvedDependency, deletedSelected,
    nonNullOutsideInput, conflictingModifiers, invalidMutability, invalidUserProperty,
    unknownEntity]

/-- The number of a code: the hundreds tell the stage, from reading characters to resolving
properties. -/
def text : Code → String
  | unterminatedString => "E001"
  | unexpectedCharacter => "E002"
  | invalidEscape => "E003"
  | unterminatedComment => "E004"
  | numberOutOfRange => "E005"
  | unexpectedToken => "E100"
  | incompleteInput => "E101"
  | unknownModifier => "E102"
  | unknownMacro => "E200"
  | duplicateMacro => "E201"
  | ineligibleTarget => "E202"
  | idleNegative => "E203"
  | nestedNotAllowed => "E204"
  | duplicateType => "E205"
  | duplicateNegative => "E206"
  | itemNotAllowed => "E207"
  | unresolvedProperty => "E300"
  | duplicateProperty => "E301"
  | unresolvedDependency => "E302"
  | deletedSelected => "E303"
  | nonNullOutsideInput => "E304"
  | conflictingModifiers => "E305"
  | invalidMutability => "E306"
  | invalidUserProperty => "E307"
  | unknownEntity => "E308"

/-- The code with this number. -/
def ofText? (s : String) : Option Code :=
  all.find? (·.text == s)

/-- The code in words. -/
def description : Code → String
  | unterminatedString => "unterminated string literal"
  | unexpectedCharacter => "unexpected character"
  | invalidEscape => "invalid escape sequence"
  | unterminatedComment => "unterminated block comment"
  | numberOutOfRange => "numeric literal out of range"
  | unexpectedToken => "unexpected token"
  | incompleteInput => "incomplete input"
  | unknownModifier => "unknown modifier"
  | unknownMacro => "unknown macro"
  | duplicateMacro => "duplicate macro"
  | ineligibleTarget => "ineligible macro target"
  | idleNegative => "negative property removes nothing"
  | nestedNotAllowed => "nested selection not allowed"
  | duplicateType => "duplicate DTO type"
  | duplicateNegative => "duplicate negative property"
  | itemNotAllowed => "item not allowed here"
  | unresolvedProperty => "unresolved property"
  | duplicateProperty => "duplicate property"
  | unresolvedDependency => "unresolved computed dependency"
  | deletedSelected => "logically-deleted property selected"
  | nonNullOutsideInput => "non-null override outside input"
  | conflictingModifiers => "conflicting modifiers"
  | invalidMutability => "invalid mutability annotation"
  | invalidUserProperty => "invalid user-defined property"
  | unknownEntity => "unknown entity"

/-- The category of a code. -/
def category : Code → Category
  | unterminatedString | unexpectedCharacter | invalidEscape | unterminatedComment
  | numberOutOfRange | unexpectedToken | incompleteInput | unknownModifier => .parse
  | unresolvedProperty => .unresolvedProperty
  | duplicateProperty => .duplicateProperty
  | unresolvedDependency => .computedDependency
  | unknownEntity => .unknownEntity
  | _ => .semantic

end Code

/-- A remark on a span of the source. The primary labels mark the fault itself, the others what it
has to do with. -/
structure Label where
  span : Span
  message : String
  primary : Bool := true
  deriving DecidableEq, Repr

/-- One thing that is wrong with a source. -/
structure Diagnostic where
  severity : Severity := .error
  code : Option Code := none
  message : String
  labels : List Label := []
  help : Option String := none
  deriving DecidableEq, Repr

namespace Diagnostic

/-- The diagnostic with a remark after its message. -/
def inContext (d : Diagnostic) (context : String) : Diagnostic :=
  { d with message := d.message ++ " " ++ context }

/-- The diagnostic on one line. -/
def text (d : Diagnostic) : String :=
  d.severity.text ++ (d.code.map (fun c => "[" ++ c.text ++ "]")).getD "" ++ ": " ++ d.message

end Diagnostic

/-- The diagnostics of a source that was refused. -/
structure Report where
  diagnostics : List Diagnostic
  deriving DecidableEq, Repr

namespace Report

/-- The first diagnostic, with the number of the others. -/
def text (r : Report) : String :=
  match r.diagnostics with
  | [] => ""
  | [first] => first.text
  | first :: rest => first.text ++ " (+" ++ toString rest.length ++ " more)"

/-- The category of the first error that has a code. -/
def category (r : Report) : Option Category :=
  (r.diagnostics.filter (·.severity == .error)).findSome? (·.code) |>.map Code.category

end Report

end Projection
