import Projection.Name

/-!
# Type references

The type of a user-defined property: a name, its arguments, and a mark if the value may be null.
-/

namespace Projection

/-- A type as it is written. -/
structure TypeRef where
  name : Name
  arguments : List TypeRef
  nullable : Bool
  deriving Repr, Inhabited

/-- What the simple name of a type tells about its values. -/
inductive TypeCategory where
  | boolean
  | character
  | integral
  | floating
  | text
  | collection
  | other
  deriving DecidableEq, Repr

/-- The category of a simple type name. -/
def TypeCategory.ofName (simple : String) : TypeCategory :=
  if ["Boolean", "boolean"].contains simple then boolean
  else if ["Char", "Character", "char"].contains simple then character
  else if ["Byte", "byte", "Short", "short", "Int", "int", "Integer",
      "Long", "long"].contains simple then integral
  else if ["Float", "float", "Double", "double"].contains simple then floating
  else if simple == "String" then text
  else if ["List", "MutableList", "Set", "MutableSet", "Collection", "Iterable", "Map",
    "MutableMap"].contains simple then collection
  else other

namespace TypeRef

/-- The category of a type. -/
def category (t : TypeRef) : TypeCategory :=
  TypeCategory.ofName (Name.simple t.name)

/-- A property of this type need not be given a default. -/
def hasImplicitDefault (t : TypeRef) : Bool :=
  t.category != .other

mutual

/-- The type as it is written. -/
def text : TypeRef → String
  | ⟨name, arguments, nullable⟩ =>
    name ++ (if arguments.isEmpty then "" else "<" ++ ", ".intercalate (texts arguments) ++ ">") ++
      (if nullable then "?" else "")

/-- The types as they are written, one by one. -/
def texts : List TypeRef → List String
  | [] => []
  | t :: ts => t.text :: texts ts

end

end TypeRef

end Projection
