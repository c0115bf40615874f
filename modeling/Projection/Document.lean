import Projection.Decimal.Binary64

/-!
# Documents

A document is the data of a configuration file or a catalog. Records are read from it field by
field. A record may also be given as a list of its fields in order; then fields may be left out
only at the end, and only those that have a default.
-/

namespace Projection

/-- Data: texts, numbers and truth values, in lists and tables. -/
inductive Document where
  | text (value : String)
  | integer (value : Int)
  | decimal (value : Binary64)
  | boolean (value : Bool)
  | list (items : List Document)
  | table (entries : List (String × Document))
  deriving Repr, Inhabited

namespace Document

/-! ### Values -/

/-- A text. -/
def text? : Document → Option String
  | text value => some value
  | _ => none

/-- A truth value. -/
def boolean? : Document → Option Bool
  | boolean value => some value
  | _ => none

/-- A list, each item read alike. -/
def listOf? {α : Type} (read : Document → Option α) : Document → Option (List α)
  | list items => items.mapM read
  | _ => none

/-- One of several words: the word alone, or as the only key of a table, with nothing below it. -/
def word? : Document → Option String
  | text value => some value
  | table [(word, list [])] => some word
  | table [(word, table [])] => some word
  | _ => none

/-! ### Records -/

/-- The fields of a record, and whether they were given by their order. -/
structure Fields where
  entries : List (String × Document)
  positional : Bool

/-- The fields of a record with these names. -/
def fields? (names : List String) : Document → Option Fields
  | table entries => some ⟨entries, false⟩
  | list items => some ⟨names.zip items, true⟩
  | _ => none

namespace Fields

variable {α : Type} (fields : Fields) (read : Document → Option α)

/-- The field with this name. -/
def find? (name : String) : Option Document :=
  (fields.entries.find? (·.1 == name)).map (·.2)

/-- A field that must be there. -/
def required (name : String) : Option α :=
  (fields.find? name).bind read

/-- A field with a default. -/
def withDefault (name : String) (default : α) : Option α :=
  match fields.find? name with
  | some value => read value
  | none => some default

/-- A field that may be left out, where fields are given by their names. -/
def optional (name : String) : Option (Option α) :=
  match fields.find? name with
  | some value => (read value).map some
  | none => if fields.positional then none else some none

end Fields

end Document

end Projection
