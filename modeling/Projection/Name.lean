import Projection.Text.Case

/-!
# Names

Entities, properties, types and annotations have names. A qualified name is written as segments
with dots between them, such as `hr.Department`; its last segment is its simple name.
-/

namespace Projection

/-- The name of an entity, a property or a type, qualified or not. -/
abbrev Name := String

namespace Name

/-- The two names with a dot between them. -/
def join (parent child : Name) : Name :=
  parent ++ "." ++ child

/-- The last segment of a name. -/
def simple (name : Name) : String :=
  String.ofList (name.toList.reverse.takeWhile (· != '.')).reverse

/-- The name with its first letter in upper case after a leading part: `name` after `manager`
gives `managerName`. -/
def after (name lead : Name) : Name :=
  lead ++ Text.capitalize name

end Name

end Projection
