import Projection.Decimal.Shortest
import Projection.Name
import Projection.Text.Quoted

/-!
# Values

The values that a source can write down: in the arguments of annotations and as the defaults of
user-defined properties.
-/

namespace Projection

/-- A literal. -/
inductive Literal where
  | boolean (value : Bool)
  | integer (value : Int)
  | decimal (value : Binary64)
  | quoted (value : String)
  deriving DecidableEq, Repr

/-- The literal as it is shown, with decimals in a given format. -/
def Literal.text (format : Binary64.Format) : Literal → String
  | boolean value => if value then "true" else "false"
  | integer value => toString value
  | decimal value => Binary64.write format value
  | quoted value => Text.quoted value

/-- The value of an annotation argument: a literal, an enum constant given by its name, or a list of
values. -/
inductive Value where
  | literal (l : Literal)
  | constant (name : Name)
  | list (values : List Value)
  deriving Repr

mutual

/-- The value as it is shown. -/
def Value.text : Value → String
  | .literal l => l.text Binary64.plain
  | .constant name => name
  | .list values => "[" ++ ", ".intercalate (Value.texts values) ++ "]"

/-- The values as they are shown, one by one. -/
def Value.texts : List Value → List String
  | [] => []
  | v :: vs => v.text :: Value.texts vs

end

/-- The default of a user-defined property. -/
inductive Default where
  | null
  | literal (l : Literal)
  deriving DecidableEq, Repr

/-- The default as it is shown. -/
def Default.text : Default → String
  | null => "null"
  | literal l => l.text Binary64.marked

end Projection
