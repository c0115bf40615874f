import Projection.Schema.Store

/-!
# Tables

A table is a store that checks nothing: a later entity replaces an earlier one of its name, every
entity is included, and it can be finalized any number of times. Some entities may stay out of sight
until then. Whether one entity leads to another it finds out by search.
-/

namespace Projection

/-- Entities, of which the `late` ones are found only after `finalize`. -/
structure Table where
  entities : List Entity := []
  late : List Name := []
  finalized : Bool := false

namespace Table

/-- The entity with this name, if it is in sight. -/
def lookup (t : Table) (name : Name) : Option Entity :=
  if !t.finalized && t.late.contains name then none
  else t.entities.find? (·.name == name)

/-- Adds an entity, in place of one with its name. -/
def insert (t : Table) (e : Entity) : Table :=
  { t with entities := e :: t.entities.filter (·.name != e.name) }

theorem finite (t : Table) : Reach.Finite t.lookup := by
  refine Reach.finite_of_find? t.entities fun name e h => ?_
  unfold lookup at h
  split at h
  · cases h
  · exact h

end Table

instance : SchemaStore Table where
  lookup := Table.lookup
  finite := Table.finite
  finalize t := (.ok (), { t with finalized := true })

end Projection
