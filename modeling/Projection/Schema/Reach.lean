import Projection.Schema.Basic

/-!
# Reachability

One entity leads to another if a row of associations starts at the one and ends at the other. There
are two ways to find out: a search that looks up one entity at a time, and a graph that was built
once.

The search keeps a stack of names and takes the one that was put there last. A name that was visited
is not taken again, so the search ends if only finitely many names are found at all. Which names
these are it need not know.
-/

namespace Projection

namespace Reach

/-- Only finitely many names are found. -/
def Finite (lookup : Name → Option Entity) : Prop :=
  ∃ names : List Name, ∀ name, (lookup name).isSome → name ∈ names

variable {lookup : Name → Option Entity}

/-- Only finitely many names are found in a list. -/
theorem finite_of_find? (entities : List Entity)
    (h : ∀ name e, lookup name = some e → entities.find? (·.name == name) = some e) :
    Finite lookup := by
  refine ⟨entities.map (·.name), fun name hfound => ?_⟩
  obtain ⟨e, he⟩ := Option.isSome_iff_exists.mp hfound
  have hfind := h name e he
  have hname : e.name = name := by simpa using List.find?_some hfind
  exact hname ▸ List.mem_map_of_mem (List.mem_of_find?_eq_some hfind)

/-- The number of names that can be found and were not visited. -/
noncomputable def unvisited (finite : Finite lookup) (visited : List Name) : Nat :=
  (finite.choose.filter fun name => !visited.contains name).length

theorem unvisited_cons (finite : Finite lookup) (visited : List Name) (current : Name) :
    unvisited finite (current :: visited) =
      ((finite.choose.filter fun name => !visited.contains name).filter (· != current)).length := by
  rw [unvisited, List.filter_filter]
  congr 2
  funext name
  rw [List.contains_cons, Bool.not_or, bne]

theorem unvisited_cons_le (finite : Finite lookup) (visited : List Name) (current : Name) :
    unvisited finite (current :: visited) ≤ unvisited finite visited := by
  rw [unvisited_cons]
  exact List.length_filter_le _ _

/-- A visit to a name that is found leaves fewer of them. -/
theorem unvisited_cons_lt (finite : Finite lookup) {visited : List Name} {current : Name}
    (hfound : (lookup current).isSome) (hnew : visited.contains current = false) :
    unvisited finite (current :: visited) < unvisited finite visited := by
  rw [unvisited_cons]
  refine List.length_filter_lt_length_iff_exists.mpr ⟨current, ?_, by simp⟩
  exact List.mem_filter.mpr ⟨finite.choose_spec current hfound, by rw [hnew]; rfl⟩

/-- The neighbours of a name, none if it is not found. -/
def neighbours (lookup : Name → Option Entity) (name : Name) : List Name :=
  ((lookup name).map (·.neighbours)).getD []

/-- One of the pending names leads to the goal. The neighbours of a name are put on the stack in
their order, so the last of them is taken next. -/
def searchFrom (finite : Finite lookup) (goal : Name) (visited pending : List Name) : Bool :=
  match pending with
  | [] => false
  | current :: pending =>
    if current == goal then true
    else if visited.contains current then searchFrom finite goal visited pending
    else
      searchFrom finite goal (current :: visited) ((neighbours lookup current).reverse ++ pending)
termination_by (unvisited finite visited, pending.length)
decreasing_by
  · exact Prod.Lex.right _ (Nat.lt_succ_self _)
  · rename_i hnew
    by_cases hfound : (lookup current).isSome
    · exact Prod.Lex.left _ _ (unvisited_cons_lt finite hfound (eq_false_of_ne_true hnew))
    · have hnone : neighbours lookup current = [] := by
        rw [neighbours, Option.not_isSome_iff_eq_none.mp hfound]
        rfl
      rw [hnone]
      exact Prod.Lex.right' _ (unvisited_cons_le finite visited current) (Nat.lt_succ_self _)

/-- The one name leads to the other by no or more associations. -/
def search (finite : Finite lookup) (start goal : Name) : Bool :=
  searchFrom finite goal [] [start]

end Reach

/-- Associations between known entities. A node is known by its number among the names. -/
structure AssociationGraph where
  nodes : List Name
  edges : List (Fin nodes.length × Fin nodes.length)

namespace AssociationGraph

/-- The number of a name. -/
def index? (g : AssociationGraph) (name : Name) : Option (Fin g.nodes.length) :=
  g.nodes.finIdxOf? name

/-- The edges of the associations of an entity. An association to an entity outside the list has no
edge. -/
def edgesOf (nodes : List Name) (e : Entity) : List (Fin nodes.length × Fin nodes.length) :=
  match nodes.finIdxOf? e.name with
  | none => []
  | some source => (e.neighbours.filterMap nodes.finIdxOf?).map (source, ·)

/-- The graph of entities, with one edge between two nodes at most. -/
def ofEntities (entities : List Entity) : AssociationGraph where
  nodes := entities.map (·.name)
  edges := (entities.flatMap (edgesOf (entities.map (·.name)))).eraseDups

/-- The set with the ends of all edges that start in it. -/
def grow (g : AssociationGraph) (reached : List (Fin g.nodes.length)) :
    List (Fin g.nodes.length) :=
  g.edges.foldl (fun r (a, b) => if r.contains a && !r.contains b then b :: r else r) reached

/-- The set after a number of rounds. -/
def growFor (g : AssociationGraph) :
    Nat → List (Fin g.nodes.length) → List (Fin g.nodes.length)
  | 0, reached => reached
  | n + 1, reached => g.growFor n (g.grow reached)

/-- A path of edges leads from the one node to the other. This stands for the path query of a graph
library: nothing is used of it but that it decides directed reachability, and `connects_iff` says
that it does. -/
def connects (g : AssociationGraph) (source target : Fin g.nodes.length) : Bool :=
  (g.growFor g.nodes.length [source]).contains target

/-- Both names are nodes and a path leads from the one to the other, by a path query. -/
def reachesBy (query : (g : AssociationGraph) → Fin g.nodes.length → Fin g.nodes.length → Bool)
    (g : AssociationGraph) (start goal : Name) : Bool :=
  match g.index? start, g.index? goal with
  | some source, some target => query g source target
  | _, _ => false

end AssociationGraph

end Projection
