import Projection.Modifier
import Projection.Schema.Basic
import Projection.Source

/-!
# DTO types

The result of compilation: DTO types in which every property is bound to an attribute of an entity,
its nullability is decided, and nested types are spelled out. What follows never looks at the source
or the schema again.
-/

namespace Projection

/-- Whether an annotation asks for mutable or immutable output. -/
inductive Mutability where
  | immutable
  | mutable
  | unspecified
  deriving DecidableEq, Repr

namespace Mutability

/-- The choice in words. -/
def text : Mutability → String
  | immutable => "immutable"
  | mutable => "mutable"
  | unspecified => "unspecified"

/-- The choice, where the default decides if nothing was asked for. -/
def resolve (m : Mutability) (default : Bool) : Bool :=
  match m with
  | immutable => false
  | mutable => true
  | unspecified => default

end Mutability

/-- An annotation of a DTO type or a user-defined property. -/
structure Tag where
  name : Name
  arguments : List (Name × Value)
  deriving Repr

namespace Tag

/-- Sets an argument: a new one comes last, a known one keeps its place. -/
def setArgument (arguments : List (Name × Value)) (name : Name) (value : Value) :
    List (Name × Value) :=
  if arguments.any (·.1 == name) then
    arguments.map fun a => if a.1 == name then (name, value) else a
  else arguments ++ [(name, value)]

/-- The annotation that was written. Of arguments with one name the last value counts, at the place
of the first. -/
def ofItem {P : Type} (item : TagItem P) : Tag where
  name := item.name.val
  arguments :=
    item.arguments.foldl (fun args (name, value) => setArgument args name.val value.val) []

/-- The argument with this name. -/
def argument? (t : Tag) (name : Name) : Option Value :=
  (t.arguments.find? (·.1 == name)).map (·.2)

end Tag

/-- What a property without a nested type holds. -/
inductive Target where
  /-- The value itself. -/
  | value
  /-- The id of the entity behind an association, or a list of ids. -/
  | idOnly (idType : String)
  /-- The entity behind an association. -/
  | entity (name : Name)
  /-- A value of an enclosing DTO type. -/
  | recursive (type : Name)
  deriving DecidableEq, Repr

/-- What is known about every property of a DTO type. -/
structure PropertyInfo where
  /-- The name in the output. -/
  name : Name
  /-- The attribute that is read. -/
  source : Name
  newName : Option Name
  /-- The attributes on the way to the entity that has `source`. -/
  path : List Name
  kind : Kind
  type : String
  nullable : Bool
  /-- The mark that decided `nullable`. -/
  nullability : Option Nullability
  many : Bool
  deriving DecidableEq, Repr

/-- What a DTO type and the types nested in it have in common. -/
structure Outline where
  entity : Name
  name : Name
  traits : Traits
  mutable : Bool
  deriving DecidableEq, Repr

/-- A property of a DTO type. -/
inductive Property where
  | leaf (info : PropertyInfo) (target : Target)
  | nested (info : PropertyInfo) (outline : Outline) (properties : List Property)
  deriving Repr

/-- What is known about every property. -/
def Property.info : Property → PropertyInfo
  | leaf info _ => info
  | nested info _ _ => info

/-- A property that the entity does not have. -/
structure UserProperty where
  name : Name
  type : TypeRef
  nullable : Bool
  default : Option Default
  tags : List Tag
  deriving Repr

/-- A compiled DTO type. -/
structure Dto where
  outline : Outline
  tags : List Tag
  mutability : Mutability
  properties : List Property
  users : List UserProperty
  deriving Repr

namespace Dto

/-- The name of the type. -/
def name (d : Dto) : Name :=
  d.outline.name

/-- The entity of the type. -/
def entity (d : Dto) : Name :=
  d.outline.entity

/-- The names in the output, those of user-defined properties last. -/
def propertyNames (d : Dto) : List Name :=
  d.properties.map (·.info.name) ++ d.users.map (·.name)

/-- The property with this name. -/
def property? (d : Dto) (name : Name) : Option Property :=
  d.properties.find? (·.info.name == name)

/-- The user-defined property with this name. -/
def user? (d : Dto) (name : Name) : Option UserProperty :=
  d.users.find? (·.name == name)

end Dto

end Projection
