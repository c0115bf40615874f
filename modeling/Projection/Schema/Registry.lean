import Projection.Schema.Policy
import Projection.Schema.Reach
import Projection.Schema.Store

/-!
# The registry

The registry takes entities one by one, each name once. `finalize` checks that every association
and embedded value has a registered target and every id view an association; from then on the
registry does not change. Both answer with the registry that they leave.
-/

namespace Projection

/-- Entities in the order of their registration. The graph is there once the registry is
finalized. -/
structure Registry where
  entities : List Entity := []
  policy : Policy := {}
  graph : Option AssociationGraph := none

namespace Registry

/-- The registry does not change any more. -/
def isFinalized (r : Registry) : Bool :=
  r.graph.isSome

/-- The entity with this name. -/
def lookup (r : Registry) (name : Name) : Option Entity :=
  r.entities.find? (·.name == name)

/-- Adds an entity with a new name. -/
def register (r : Registry) (e : Entity) : Except SchemaFault Unit × Registry :=
  if r.isFinalized then (.error .finalized, r)
  else if (r.lookup e.name).isSome then (.error (.duplicateEntity e.name), r)
  else (.ok (), { r with entities := r.entities ++ [e] })

/-- What is wrong with an attribute. -/
def fault? (r : Registry) (e : Entity) (a : Attribute) : Option SchemaFault :=
  match a.kind with
  | .association target _ | .scalar (some target) =>
    if (r.lookup target).isSome then none else some (.unknownTarget e.name a.name target)
  | .idView association =>
    if (e.attribute? association).any (·.kind.isAssociation) then none
    else some (.invalidIdView e.name a.name association)
  | _ => none

/-- The first fault, by entity and attribute. -/
def firstFault? (r : Registry) : Option SchemaFault :=
  r.entities.findSome? fun e => e.attributes.findSome? (r.fault? e)

/-- The graph of the associations between the entities. -/
def associations (r : Registry) : AssociationGraph :=
  .ofEntities r.entities

/-- Checks the registry and ends registration. -/
def finalize (r : Registry) : Except SchemaFault Unit × Registry :=
  if r.isFinalized then (.error .finalized, r)
  else match r.firstFault? with
    | some fault => (.error fault, r)
    | none => (.ok (), { r with graph := some r.associations })

/-- An entity leads to itself, and to others once the registry is finalized, by a path query. -/
def reachesBy
    (query : (g : AssociationGraph) → Fin g.nodes.length → Fin g.nodes.length → Bool)
    (r : Registry) (start goal : Name) : Bool :=
  start == goal || r.graph.any (·.reachesBy query start goal)

/-- An entity leads to itself, and to others once the registry is finalized. -/
def reaches : Registry → Name → Name → Bool :=
  reachesBy AssociationGraph.connects

/-- Adds entities one by one, up to the first that is refused. -/
def registerAll (r : Registry) : List Entity → Except SchemaFault Unit × Registry
  | [] => (.ok (), r)
  | e :: entities =>
    match r.register e with
    | (.ok (), r) => r.registerAll entities
    | (.error fault, r) => (.error fault, r)

/-- A registry of entities, taken one by one. -/
def ofEntities (policy : Policy) (entities : List Entity) : Except SchemaFault Unit × Registry :=
  registerAll { policy } entities

theorem finite (r : Registry) : Reach.Finite r.lookup :=
  Reach.finite_of_find? r.entities fun _ _ h => h

end Registry

instance : SchemaStore Registry where
  lookup := Registry.lookup
  finite := Registry.finite
  includes r e := r.policy.allows e.name
  reaches := Registry.reaches
  finalize := Registry.finalize

end Projection
