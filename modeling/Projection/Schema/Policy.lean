import Projection.Name

/-!
# Inclusion policies

A policy tells by the start of its name whether an entity is compiled.
-/

namespace Projection

/-- A name is allowed if it starts with no excluded text and, where there are included texts, with
one of them. -/
structure Policy where
  included : List String := []
  excluded : List String := []
  deriving DecidableEq, Repr

/-- The policy allows the name. -/
def Policy.allows (p : Policy) (name : Name) : Bool :=
  !p.excluded.any (startsWith name) && (p.included.isEmpty || p.included.any (startsWith name))
where
  startsWith (name : Name) (lead : String) : Bool :=
    lead.toList.isPrefixOf name.toList

end Projection
