import Projection.Text.Blank
import Projection.AliasPattern
import Projection.TypeRef

/-!
# Types of fields

The types that fields have in the output, apart from their text. A type that an entity declares is
a text; `FieldType.ofDeclared` takes its collections apart and gives simple types their name in the
output. A type that a source writes is a `TypeRef`.
-/

namespace Projection

/-- The type of a field. -/
inductive FieldType where
  /-- A type that needs no import. -/
  | named (name : String)
  /-- An imported entity. -/
  | entity (name : String)
  /-- A struct of the same file. -/
  | struct (name : String)
  | vec (element : FieldType)
  | option (value : FieldType)
  | box (value : FieldType)
  | map (key value : FieldType)
  | generic (name : String) (arguments : List FieldType)
  deriving Repr, Inhabited

namespace FieldType

mutual

/-- The type as it is written. -/
def text : FieldType → String
  | named name | entity name | struct name => name
  | vec element => "Vec<" ++ element.text ++ ">"
  | option value => "Option<" ++ value.text ++ ">"
  | box value => "Box<" ++ value.text ++ ">"
  | map key value => "std::collections::HashMap<" ++ key.text ++ ", " ++ value.text ++ ">"
  | generic name arguments => name ++ "<" ++ ", ".intercalate (texts arguments) ++ ">"

/-- The types as they are written, one by one. -/
def texts : List FieldType → List String
  | [] => []
  | t :: ts => t.text :: texts ts

end

/-- A type, or a collection of it. -/
def collection (element : FieldType) (many : Bool) : FieldType :=
  if many then vec element else element

/-- A type, or an option of it. -/
def nullable (value : FieldType) (isNullable : Bool) : FieldType :=
  if isNullable then option value else value

/-! ### Declared types -/

/-- The name in the output of a simple type. -/
def simpleNames : List (String × String) :=
  [("Long", "i64"), ("long", "i64"), ("Integer", "i32"), ("int", "i32"), ("Int", "i32"),
    ("Short", "i16"), ("short", "i16"), ("Byte", "i8"), ("byte", "i8"), ("Boolean", "bool"),
    ("boolean", "bool"), ("Double", "f64"), ("double", "f64"), ("Float", "f32"),
    ("float", "f32"), ("Character", "char"), ("char", "char"), ("Char", "char"),
    ("String", "String")]

/-- What a declared collection starts with. -/
def wrappers : List String :=
  ["List<", "Set<", "Collection<"]

/-- The text between a wrapper and its closing bracket. -/
def unwrap? (declared : List Char) : Option (List Char) :=
  wrappers.findSome? fun wrapper =>
    (AliasPattern.withoutLead? wrapper.toList declared).bind (AliasPattern.withoutTail? ['>'])

/-- A type that is no collection. Only what follows its last dot counts. -/
def simple (declared : List Char) : FieldType :=
  let name := Name.simple (String.ofList declared)
  named (((simpleNames.find? (·.1 == name)).map (·.2)).getD name)

/-- A declared type. Each collection has a bracket of its own, so the length of the text is enough
to count them. -/
def ofDeclaredText : Nat → List Char → FieldType
  | 0, declared => simple (Text.trim declared)
  | n + 1, declared =>
    match unwrap? (Text.trim declared) with
    | some inner => vec (ofDeclaredText n inner)
    | none => simple (Text.trim declared)

/-- The type of a field whose attribute declares this type. -/
def ofDeclared (declared : String) : FieldType :=
  ofDeclaredText declared.length declared.toList

/-! ### Written types -/

/-- Names of collections with one argument. -/
def collectionNames : List String :=
  ["List", "MutableList", "Set", "MutableSet", "Collection", "Iterable"]

/-- Names of maps. -/
def mapNames : List String :=
  ["Map", "MutableMap"]

/-- The type with a simple name and arguments. -/
def ofArguments (name : String) (arguments : List FieldType) : FieldType :=
  match arguments with
  | [] => ofDeclared name
  | [element] =>
    if collectionNames.contains name then vec element else generic (ofDeclared name).text [element]
  | [key, value] =>
    if mapNames.contains name then map key value else generic (ofDeclared name).text [key, value]
  | _ => generic (ofDeclared name).text arguments

mutual

/-- A type that a source writes, without its own mark. -/
def ofTypeRef : TypeRef → FieldType
  | ⟨name, arguments, _⟩ => ofArguments (Name.simple name) (ofTypeRefs arguments)

/-- The arguments of a type, each with its mark. -/
def ofTypeRefs : List TypeRef → List FieldType
  | [] => []
  | t :: ts => (ofTypeRef t).nullable t.nullable :: ofTypeRefs ts

end

end FieldType

end Projection
