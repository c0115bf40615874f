import Projection.Schema.Reach

/-!
# Stores of entities

A run over sources goes through two phases. At first entities may be looked up but not relied on;
then the store is finalized, once, and gives the `Schema` that compilation sees. A store that is
asked to change answers with the store that it is afterwards, whether the request was granted or
not.
-/

namespace Projection

/-- What a run needs of the entities it works on. -/
class SchemaStore (σ : Type) where
  /-- The entity with this name, as far as it is known. -/
  lookup : σ → Name → Option Entity
  /-- Only finitely many entities are known. -/
  finite : ∀ store, Reach.Finite (lookup store)
  /-- The sources of this entity are compiled. -/
  includes : σ → Entity → Bool := fun _ _ => true
  /-- The first entity leads to the second through associations. -/
  reaches : σ → Name → Name → Bool := fun store => Reach.search (finite store)
  /-- Ends the first phase. -/
  finalize : σ → Except SchemaFault Unit × σ

namespace SchemaStore

variable {σ : Type} [SchemaStore σ]

/-- The view of a store that compilation sees. -/
def schema (store : σ) : Schema where
  entity? := lookup store
  reaches := reaches store

/-- The marker of an entity by its name. -/
def marker? (store : σ) (name : Name) : Option Marker :=
  (lookup store name).map (·.marker)

/-- The entity is known and its sources are compiled. -/
def includesName (store : σ) (name : Name) : Bool :=
  (lookup store name).any (includes store)

/-- Ends the first phase and gives the view for the second, with the store after it. -/
def resolve (store : σ) : Except SchemaFault Schema × σ :=
  match finalize store with
  | (.ok (), store) => (.ok (schema store), store)
  | (.error fault, store) => (.error fault, store)

end SchemaStore

/-- A store in which some entities are not found. -/
structure Masked (σ : Type) where
  store : σ
  hidden : List Name := []

/-- The entity with this name, unless it is hidden. -/
def Masked.lookup {σ : Type} [SchemaStore σ] (m : Masked σ) (name : Name) : Option Entity :=
  if m.hidden.contains name then none else SchemaStore.lookup m.store name

theorem Masked.finite {σ : Type} [SchemaStore σ] (m : Masked σ) : Reach.Finite m.lookup := by
  obtain ⟨names, hnames⟩ := SchemaStore.finite m.store
  refine ⟨names, fun name hfound => hnames name ?_⟩
  unfold lookup at hfound
  split at hfound
  · cases hfound
  · exact hfound

instance {σ : Type} [SchemaStore σ] : SchemaStore (Masked σ) where
  lookup := Masked.lookup
  finite := Masked.finite
  includes m e := SchemaStore.includes m.store e
  reaches m start goal := SchemaStore.reaches m.store start goal
  finalize m :=
    let (result, store) := SchemaStore.finalize m.store
    (result, { m with store })

end Projection
