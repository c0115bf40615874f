/-!
# Modifiers

The words that may stand before the name of a DTO type, and what they decide: whether the type is
a view, an input or a specification, how an input treats nullable properties, and whether the
logically-deleted marker may be selected.
-/

namespace Projection

/-- How an input treats a nullable property. -/
inductive Stance where
  | fixed
  | static
  | dynamic
  | fuzzy
  deriving DecidableEq, Repr

namespace Stance

/-- All stances. -/
def all : List Stance :=
  [fixed, static, dynamic, fuzzy]

/-- The word for a stance. -/
def text : Stance → String
  | fixed => "fixed"
  | static => "static"
  | dynamic => "dynamic"
  | fuzzy => "fuzzy"

/-- The stance with this word. -/
def ofWord? (word : String) : Option Stance :=
  all.find? (·.text == word)

/-- The answer to a word that names no stance. -/
def unknownWord : String :=
  "Unsupported nullable input strategy"

end Stance

/-- A word before the name of a DTO type. -/
inductive Modifier where
  | input
  | specification
  | stance (s : Stance)
  | deleted
  deriving DecidableEq, Repr

namespace Modifier

/-- The word for a modifier. -/
def text : Modifier → String
  | input => "input"
  | specification => "specification"
  | stance s => s.text
  | deleted => "deleted"

/-- The modifier with this word. -/
def ofWord? (word : String) : Option Modifier :=
  if word == "input" then some input
  else if word == "specification" then some specification
  else if word == "deleted" then some deleted
  else (Stance.ofWord? word).map stance

end Modifier

/-- What a DTO type is for. -/
inductive Role where
  | view
  | input
  | specification
  deriving DecidableEq, Repr

/-- The word for a role. -/
def Role.text : Role → String
  | view => "view"
  | input => "input"
  | specification => "specification"

/-- What the modifiers of a DTO type decide together. -/
structure Traits where
  role : Role := .view
  stance : Stance := .static
  includeDeleted : Bool := false
  deriving DecidableEq, Repr

/-- The type is an input. -/
def Traits.isInput (t : Traits) : Bool :=
  t.role == .input

end Projection
