import Mathlib.Data.Fintype.Card
import Mathlib.Logic.Relation
import Projection.Proofs.Schema.Registration
import Projection.Schema.Table

/-!
# Reachability through associations

`Entity.Leads` says that one entity has an association to another; embedded values do not count. A
path of associations is a path of `Leads`, and there are two ways to look for one.

A search takes a name from its stack, unless it was visited before, and puts its neighbours there.
Every neighbour of a visited name was visited or is on the stack (`Reach.Explored`), so a path from
a visited name to the goal leads through the stack, and none is left when the stack is empty.

The graph of a finalized registry answers a path query between two nodes. The query adds the ends of
edges round by round. Each round adds a node or the last one found nothing new, and there are no
more rounds to go than nodes (`AssociationGraph.closed_or_grows`).

So both decide whether there is a path (`Reach.search_iff`, `Registry.reachesBy_iff`), in a
finalized registry, where no association leads out.
-/

namespace Projection

open Relation (ReflTransGen)

/-- An entity with the first name has an association to the second. -/
def Entity.Leads (entities : List Entity) (source target : Name) : Prop :=
  ∃ e ∈ entities, e.name = source ∧ ∃ a ∈ e.attributes, ∃ many, a.kind = .association target many

theorem Entity.mem_neighbours {e : Entity} {target : Name} :
    target ∈ e.neighbours ↔ ∃ a ∈ e.attributes, ∃ many, a.kind = .association target many := by
  rw [neighbours, List.mem_filterMap]
  refine exists_congr fun a => and_congr_right fun _ => ?_
  cases a.kind <;> simp [Kind.isAssociation, Kind.target?]

theorem Entity.leads_iff {entities : List Entity} {source target : Name} :
    Leads entities source target ↔ ∃ e ∈ entities, e.name = source ∧ target ∈ e.neighbours := by
  simp only [Leads, mem_neighbours]

theorem Entity.leads_of_perm {entities entities' : List Entity} (h : entities.Perm entities') :
    Leads entities = Leads entities' := by
  funext source target
  simp only [Leads, h.mem_iff]

/-! ### The search -/

namespace Reach

variable {lookup : Name → Option Entity} {visited pending : List Name} {goal : Name}

/-- The first name is found, and has an association to the second. -/
def Links (lookup : Name → Option Entity) (source target : Name) : Prop :=
  target ∈ neighbours lookup source

/-- The goal was not visited, and every neighbour of a visited name was visited or is pending. -/
structure Explored (lookup : Name → Option Entity) (goal : Name) (visited pending : List Name) :
    Prop where
  apart : goal ∉ visited
  closed : ∀ a ∈ visited, ∀ b, Links lookup a b → b ∈ visited ∨ b ∈ pending

namespace Explored

/-- A path from a visited name to the goal leads through a pending one. -/
theorem exists_pending (h : Explored lookup goal visited pending) {a : Name} (ha : a ∈ visited)
    (hpath : ReflTransGen (Links lookup) a goal) :
    ∃ b ∈ pending, ReflTransGen (Links lookup) b goal := by
  induction hpath using ReflTransGen.head_induction_on with
  | refl => exact absurd ha h.apart
  | head hlink hrest ih =>
    rcases h.closed _ ha _ hlink with hvisited | hpending
    · exact ih hvisited
    · exact ⟨_, hpending, hrest⟩

/-- A visited name may be taken from the stack. -/
theorem skip {current : Name} (h : Explored lookup goal visited (current :: pending))
    (hvisited : current ∈ visited) : Explored lookup goal visited pending := by
  refine ⟨h.apart, fun a ha b hlink => ?_⟩
  rcases h.closed a ha b hlink with hb | hb
  · exact .inl hb
  · rcases List.mem_cons.mp hb with rfl | hb
    · exact .inl hvisited
    · exact .inr hb

/-- A name is visited, and its neighbours are put on the stack. -/
theorem visit {current : Name} (h : Explored lookup goal visited (current :: pending))
    (hgoal : current ≠ goal) :
    Explored lookup goal (current :: visited)
      ((neighbours lookup current).reverse ++ pending) := by
  refine ⟨fun hmem => ?_, fun a ha b hlink => ?_⟩
  · rcases List.mem_cons.mp hmem with heq | hmem
    · exact hgoal heq.symm
    · exact h.apart hmem
  · rcases List.mem_cons.mp ha with rfl | ha
    · exact .inr (List.mem_append_left _ (List.mem_reverse.mpr hlink))
    · rcases h.closed a ha b hlink with hb | hb
      · exact .inl (List.mem_cons_of_mem _ hb)
      · rcases List.mem_cons.mp hb with rfl | hb
        · exact .inl List.mem_cons_self
        · exact .inr (List.mem_append_right _ hb)

end Explored

/-- **The loop decides whether a pending name leads to the goal.** -/
theorem searchFrom_iff (finite : Finite lookup) (h : Explored lookup goal visited pending) :
    searchFrom finite goal visited pending = true ↔
      ∃ a ∈ pending, ReflTransGen (Links lookup) a goal := by
  fun_induction searchFrom finite goal visited pending with
  | case1 => simp
  | case2 visited current pending hgoal =>
    exact iff_of_true rfl ⟨current, List.mem_cons_self, eq_of_beq hgoal ▸ .refl⟩
  | case3 visited current pending _ hvisited ih =>
    have hmem : current ∈ visited := List.contains_iff_mem.mp hvisited
    rw [ih (h.skip hmem), List.exists_mem_cons_iff, or_iff_right_of_imp]
    exact (h.skip hmem).exists_pending hmem
  | case4 visited current pending hgoal _ ih =>
    have hne : current ≠ goal := fun heq => hgoal (beq_iff_eq.mpr heq)
    rw [ih (h.visit hne)]
    constructor
    · rintro ⟨a, ha, hpath⟩
      rcases List.mem_append.mp ha with hlink | ha
      · exact ⟨current, List.mem_cons_self, .head (List.mem_reverse.mp hlink) hpath⟩
      · exact ⟨a, List.mem_cons_of_mem _ ha, hpath⟩
    · rintro ⟨a, ha, hpath⟩
      rcases List.mem_cons.mp ha with rfl | ha
      · exact (h.visit hne).exists_pending List.mem_cons_self hpath
      · exact ⟨a, List.mem_append_right _ ha, hpath⟩

theorem search_iff (finite : Finite lookup) (start goal : Name) :
    search finite start goal = true ↔ ReflTransGen (Links lookup) start goal := by
  have hstart : Explored lookup goal [] [start] := ⟨List.not_mem_nil, nofun⟩
  rw [search, searchFrom_iff finite hstart, List.exists_mem_cons_iff]
  simp

/-- Where names find the entities of a list, links are associations between them. -/
theorem links_eq_leads {entities : List Entity} (hdistinct : (entities.map (·.name)).Nodup)
    (hlookup : ∀ name, lookup name = entities.find? (·.name == name)) :
    Links lookup = Entity.Leads entities := by
  funext source target
  rw [eq_iff_iff, Entity.leads_iff, Links, neighbours, hlookup]
  cases hfind : entities.find? (·.name == source) with
  | none =>
    refine ⟨nofun, ?_⟩
    rintro ⟨e, he, hname, _⟩
    rw [(find?_key_eq_some_iff hdistinct).mpr ⟨he, hname⟩] at hfind
    cases hfind
  | some found =>
    constructor
    · intro htarget
      obtain ⟨he, hname⟩ := (find?_key_eq_some_iff hdistinct).mp hfind
      exact ⟨found, he, hname, htarget⟩
    · rintro ⟨e, he, hname, htarget⟩
      rw [(find?_key_eq_some_iff hdistinct).mpr ⟨he, hname⟩] at hfind
      cases hfind
      exact htarget

end Reach

/-! ### The graph -/

namespace AssociationGraph

variable {g : AssociationGraph} {reached : List (Fin g.nodes.length)}

/-- An edge leads from the one node to the other. -/
def Edge (g : AssociationGraph) (source target : Fin g.nodes.length) : Prop :=
  (source, target) ∈ g.edges

/-- One edge of a round. -/
def visit (reached : List (Fin g.nodes.length)) (edge : Fin g.nodes.length × Fin g.nodes.length) :
    List (Fin g.nodes.length) :=
  if reached.contains edge.1 && !reached.contains edge.2 then edge.2 :: reached else reached

theorem grow_eq (g : AssociationGraph) (reached : List (Fin g.nodes.length)) :
    g.grow reached = g.edges.foldl visit reached :=
  rfl

theorem visit_cases (reached : List (Fin g.nodes.length))
    (edge : Fin g.nodes.length × Fin g.nodes.length) :
    visit reached edge = reached ∧ (edge.1 ∈ reached → edge.2 ∈ reached) ∨
      visit reached edge = edge.2 :: reached ∧ edge.1 ∈ reached ∧ edge.2 ∉ reached := by
  by_cases hadds : (reached.contains edge.1 && !reached.contains edge.2) = true
  · refine .inr ⟨by rw [visit, if_pos hadds], ?_⟩
    simpa using hadds
  · refine .inl ⟨by rw [visit, if_neg hadds], ?_⟩
    simpa using hadds

/-- An invariant of single edges is one of rounds. -/
theorem foldl_visit_induction {motive : List (Fin g.nodes.length) → Prop}
    {edges : List (Fin g.nodes.length × Fin g.nodes.length)} (hstart : motive reached)
    (hstep : ∀ reached, ∀ edge ∈ edges, motive reached → edge.1 ∈ reached → edge.2 ∉ reached →
      motive (edge.2 :: reached)) :
    motive (edges.foldl visit reached) := by
  induction edges generalizing reached with
  | nil => exact hstart
  | cons edge edges ih =>
    rw [List.foldl_cons]
    refine ih ?_ fun reached other hother => hstep reached other (List.mem_cons_of_mem _ hother)
    rcases visit_cases reached edge with ⟨hvisit, _⟩ | ⟨hvisit, hfirst, hsecond⟩
    · rw [hvisit]
      exact hstart
    · rw [hvisit]
      exact hstep reached edge List.mem_cons_self hstart hfirst hsecond

/-- A round that adds nothing has met no edge that leads out. -/
theorem foldl_visit_cases (edges : List (Fin g.nodes.length × Fin g.nodes.length))
    (reached : List (Fin g.nodes.length)) :
    edges.foldl visit reached = reached ∧ (∀ edge ∈ edges, edge.1 ∈ reached → edge.2 ∈ reached) ∨
      reached.length < (edges.foldl visit reached).length := by
  induction edges generalizing reached with
  | nil => exact .inl ⟨rfl, nofun⟩
  | cons edge edges ih =>
    rw [List.foldl_cons]
    rcases visit_cases reached edge with ⟨hvisit, hedge⟩ | ⟨hvisit, _, _⟩
    · rw [hvisit]
      rcases ih reached with ⟨hsame, hedges⟩ | hlonger
      · exact .inl ⟨hsame, List.forall_mem_cons.mpr ⟨hedge, hedges⟩⟩
      · exact .inr hlonger
    · rw [hvisit]
      have hmore : reached.length < (edge.2 :: reached).length := Nat.lt_succ_self _
      rcases ih (edge.2 :: reached) with ⟨hsame, _⟩ | hlonger
      · rw [hsame]
        exact .inr hmore
      · exact .inr (Nat.lt_trans hmore hlonger)

/-- No edge leads out of the set. -/
def IsClosed (g : AssociationGraph) (reached : List (Fin g.nodes.length)) : Prop :=
  ∀ edge ∈ g.edges, edge.1 ∈ reached → edge.2 ∈ reached

theorem growFor_induction {motive : List (Fin g.nodes.length) → Prop} (hstart : motive reached)
    (hstep : ∀ reached, ∀ edge ∈ g.edges, motive reached → edge.1 ∈ reached → edge.2 ∉ reached →
      motive (edge.2 :: reached)) (n : Nat) :
    motive (g.growFor n reached) := by
  induction n generalizing reached with
  | zero => exact hstart
  | succ n ih => exact ih (foldl_visit_induction hstart hstep)

theorem growFor_eq_of_grow_eq (h : g.grow reached = reached) (n : Nat) :
    g.growFor n reached = reached := by
  induction n with
  | zero => rfl
  | succ n ih => rw [growFor, h, ih]

/-- After some rounds the set is closed, or each round has added a node. -/
theorem closed_or_grows (g : AssociationGraph) (n : Nat) (reached : List (Fin g.nodes.length)) :
    g.IsClosed (g.growFor n reached) ∨ reached.length + n ≤ (g.growFor n reached).length := by
  induction n generalizing reached with
  | zero => exact .inr (Nat.le_refl _)
  | succ n ih =>
    rcases foldl_visit_cases g.edges reached with ⟨hsame, hclosed⟩ | hlonger
    · rw [growFor_eq_of_grow_eq hsame]
      exact .inl hclosed
    · rw [growFor]
      rcases ih (g.grow reached) with hclosed | hlength
      · exact .inl hclosed
      · right
        rw [grow_eq] at hlength ⊢
        omega

/-- As many rounds as there are nodes leave a closed set. -/
theorem isClosed_growFor (g : AssociationGraph) (start : Fin g.nodes.length) :
    g.IsClosed (g.growFor g.nodes.length [start]) := by
  -- The set has no repetitions, so it cannot have grown in every round.
  have hnodup : (g.growFor g.nodes.length [start]).Nodup :=
    growFor_induction (motive := List.Nodup) (List.nodup_singleton start)
      (fun _ _ _ hnodup _ hnew => List.nodup_cons.mpr ⟨hnew, hnodup⟩) _
  have hlength := hnodup.length_le_card
  rw [Fintype.card_fin] at hlength
  rcases g.closed_or_grows g.nodes.length [start] with hclosed | hgrown
  · exact hclosed
  · rw [List.length_singleton] at hgrown
    omega

/-- The path query decides directed reachability. -/
theorem connects_iff (g : AssociationGraph) (source target : Fin g.nodes.length) :
    g.connects source target = true ↔ ReflTransGen g.Edge source target := by
  rw [connects, List.contains_iff_mem]
  constructor
  · have hsound : ∀ node ∈ g.growFor g.nodes.length [source], ReflTransGen g.Edge source node := by
      refine growFor_induction (motive := fun reached => ∀ node ∈ reached,
        ReflTransGen g.Edge source node) ?_ ?_ _
      · intro node hnode
        rw [List.mem_singleton.mp hnode]
      · intro reached edge hedge h hfirst _ node hnode
        rcases List.mem_cons.mp hnode with rfl | hnode
        · exact (h edge.1 hfirst).tail hedge
        · exact h node hnode
    exact hsound target
  · have hmore : source ∈ g.growFor g.nodes.length [source] :=
      growFor_induction (motive := fun reached => source ∈ reached) List.mem_cons_self
        (fun _ _ _ h _ _ => List.mem_cons_of_mem _ h) _
    intro hpath
    induction hpath with
    | refl => exact hmore
    | tail _ hedge ih => exact g.isClosed_growFor source _ hedge ih

/-! ### Nodes and names -/

/-- The name of a node. -/
def name (g : AssociationGraph) (node : Fin g.nodes.length) : Name :=
  g.nodes.get node

theorem name_of_index? {name : Name} {node : Fin g.nodes.length} (h : g.index? name = some node) :
    g.name node = name :=
  (List.finIdxOf?_eq_some_iff.mp h).1

/-- Names that are listed once have the numbers of their nodes. -/
theorem index?_eq_some_iff (hdistinct : g.nodes.Nodup) {name : Name}
    {node : Fin g.nodes.length} : g.index? name = some node ↔ g.name node = name := by
  refine ⟨name_of_index?, fun hname => ?_⟩
  refine List.finIdxOf?_eq_some_iff.mpr ⟨hname, fun other hlt hother => ?_⟩
  have hsame : other = node := hdistinct.injective_get (hother.trans hname.symm)
  exact absurd (hsame ▸ hlt) (lt_irrefl _)

theorem exists_index?_iff {name : Name} : (∃ node, g.index? name = some node) ↔ name ∈ g.nodes := by
  rw [← Option.isSome_iff_exists, index?, List.isSome_finIdxOf?, List.contains_iff_mem]

/-- The edges of a graph of entities are the associations between them. -/
theorem edge_ofEntities_iff {entities : List Entity} (hdistinct : (entities.map (·.name)).Nodup)
    {source target : Fin (ofEntities entities).nodes.length} :
    (ofEntities entities).Edge source target ↔
      Entity.Leads entities ((ofEntities entities).name source)
        ((ofEntities entities).name target) := by
  have hindex {name : Name} {node : Fin (ofEntities entities).nodes.length} :
      (ofEntities entities).nodes.finIdxOf? name = some node ↔
        (ofEntities entities).name node = name :=
    index?_eq_some_iff hdistinct
  change (source, target) ∈ (entities.flatMap (edgesOf (ofEntities entities).nodes)).eraseDups ↔ _
  rw [List.mem_eraseDups, List.mem_flatMap, Entity.leads_iff]
  refine exists_congr fun e => and_congr_right fun _ => ?_
  unfold edgesOf
  constructor
  · intro hedge
    split at hedge
    · cases hedge
    · rename_i found hfound
      obtain ⟨other, hother, heq⟩ := List.mem_map.mp hedge
      obtain ⟨rfl, rfl⟩ := Prod.mk.inj heq
      obtain ⟨name, hname, hnode⟩ := List.mem_filterMap.mp hother
      exact ⟨(hindex.mp hfound).symm, (hindex.mp hnode).symm ▸ hname⟩
  · rintro ⟨hsource, htarget⟩
    rw [hindex.mpr hsource.symm]
    exact List.mem_map_of_mem (List.mem_filterMap.mpr ⟨_, htarget, hindex.mpr rfl⟩)

end AssociationGraph

/-! ### Registries -/

namespace Registry

/-- In a closed registry an association leads to a node. -/
theorem Closed.exists_node {r : Registry} (h : r.Closed) {source target : Name}
    (hleads : Entity.Leads r.entities source target) :
    ∃ node, r.associations.name node = target := by
  obtain ⟨e, he, _, a, ha, many, hkind⟩ := hleads
  have hknown : target ∈ r.associations.nodes :=
    h.target e he a ha target (by rw [hkind, Kind.target?])
  obtain ⟨node, hnode⟩ := AssociationGraph.exists_index?_iff.mpr hknown
  exact ⟨node, AssociationGraph.name_of_index? hnode⟩

/-- In a closed registry the paths from a node are the paths of associations from its name. -/
theorem Closed.path_iff {r : Registry} (h : r.Closed) (hdistinct : r.names.Nodup)
    {source : Fin r.associations.nodes.length} {goal : Name} :
    (∃ target, r.associations.name target = goal ∧
        ReflTransGen r.associations.Edge source target) ↔
      ReflTransGen (Entity.Leads r.entities) (r.associations.name source) goal := by
  constructor
  · rintro ⟨target, rfl, hpath⟩
    exact hpath.lift r.associations.name fun _ _ =>
      (AssociationGraph.edge_ofEntities_iff hdistinct).mp
  · intro hpath
    induction hpath with
    | refl => exact ⟨source, rfl, .refl⟩
    | tail _ hleads ih =>
      obtain ⟨between, rfl, hpath⟩ := ih
      obtain ⟨target, rfl⟩ := h.exists_node hleads
      exact ⟨target, rfl, hpath.tail ((AssociationGraph.edge_ofEntities_iff hdistinct).mpr hleads)⟩

/-- A finalized registry decides whether a path of associations leads from one entity to another, as
far as the path query decides reachability. -/
theorem reachesBy_iff
    {query : (g : AssociationGraph) → Fin g.nodes.length → Fin g.nodes.length → Bool}
    (hquery : ∀ g source target, query g source target = true ↔ ReflTransGen g.Edge source target)
    {r s : Registry} (h : r.finalize = (.ok (), s)) (hdistinct : r.names.Nodup)
    (start goal : Name) :
    s.reachesBy query start goal = true ↔ ReflTransGen (Entity.Leads s.entities) start goal := by
  obtain ⟨_, hclosed, rfl⟩ := finalize_eq_ok_iff.mp h
  have hindex {name : Name} {node : Fin r.associations.nodes.length} :
      r.associations.index? name = some node ↔ r.associations.name node = name :=
    AssociationGraph.index?_eq_some_iff hdistinct
  rw [reachesBy, Option.any_some, Bool.or_eq_true, beq_iff_eq, AssociationGraph.reachesBy]
  constructor
  · rintro (rfl | hreaches)
    · exact .refl
    · split at hreaches
      · rename_i source target hsource htarget
        rw [← hindex.mp hsource]
        exact (hclosed.path_iff hdistinct).mp ⟨target, hindex.mp htarget, (hquery ..).mp hreaches⟩
      · cases hreaches
  · intro hpath
    rcases hpath.cases_head with rfl | ⟨next, hfirst, _⟩
    · exact .inl rfl
    · -- The path is not empty, so it starts at a registered entity.
      obtain ⟨source, hsource⟩ : ∃ source, r.associations.name source = start := by
        obtain ⟨e, he, rfl, _⟩ := hfirst
        obtain ⟨node, hnode⟩ := AssociationGraph.exists_index?_iff.mpr
          (show e.name ∈ r.associations.nodes from List.mem_map_of_mem he)
        exact ⟨node, AssociationGraph.name_of_index? hnode⟩
      subst hsource
      obtain ⟨target, rfl, hedges⟩ := (hclosed.path_iff hdistinct).mpr hpath
      rw [hindex.mpr rfl, hindex.mpr rfl]
      exact .inr ((hquery ..).mpr hedges)

theorem reaches_iff {r s : Registry} (h : r.finalize = (.ok (), s)) (hdistinct : r.names.Nodup)
    (start goal : Name) :
    s.reaches start goal = true ↔ ReflTransGen (Entity.Leads s.entities) start goal :=
  reachesBy_iff AssociationGraph.connects_iff h hdistinct start goal

end Registry

/-- **Two ways to reach.** Take a registry that any requests have led to and that can be finalized,
and any store in which the same entities are found. Let the path query of the graph decide directed
reachability, as the one does that the registry uses. Then the graph of the registry and the search
of the store give the same answer for any two names, known or not, and the answer tells whether a
path of no or more associations leads from the one to the other. -/
theorem Registry.reaches_agree {policy : Policy} {requests : List Request} {s : Registry}
    (h : (after policy requests).finalize = (.ok (), s))
    {query : (g : AssociationGraph) → Fin g.nodes.length → Fin g.nodes.length → Bool}
    (hquery : ∀ g source target, query g source target = true ↔ ReflTransGen g.Edge source target)
    {σ : Type} [SchemaStore σ] {store : σ}
    (hlookup : ∀ name, SchemaStore.lookup store name = s.lookup name) (start goal : Name) :
    s.reachesBy query start goal = Reach.search (SchemaStore.finite store) start goal ∧
      s.reaches start goal = Reach.search (SchemaStore.finite store) start goal ∧
      (s.reaches start goal = true ↔ ReflTransGen (Entity.Leads s.entities) start goal) := by
  have hdistinct := (consistent_after policy requests).distinct
  have hstore : (s.entities.map (·.name)).Nodup := by
    obtain ⟨_, _, rfl⟩ := finalize_eq_ok_iff.mp h
    exact hdistinct
  have hsearch := Reach.search_iff (SchemaStore.finite store) start goal
  rw [Reach.links_eq_leads hstore hlookup] at hsearch
  have hreaches := reaches_iff h hdistinct start goal
  refine ⟨?_, Bool.eq_iff_iff.mpr (hreaches.trans hsearch.symm), hreaches⟩
  exact Bool.eq_iff_iff.mpr ((reachesBy_iff hquery h hdistinct start goal).trans hsearch.symm)

/-! ### An example

Guests have keys and travel in company, which is a cycle. Their address is embedded and lies in a
city, so no association leads there. The registry is finalized at the second attempt only, when all
entities are there. -/

namespace Lodging

def guest : Entity where
  name := "Guest"
  marker := .entity
  attributes := [.id "id" "Long", .association "companion" "Guest" false,
    .association "keys" "Key" true, .embedded "home" "Address"]
  distinct := by decide

def key : Entity where
  name := "Key"
  marker := .entity
  attributes := [.id "number" "Long"]
  distinct := by decide

def address : Entity where
  name := "Address"
  marker := .embeddable
  attributes := [.association "city" "City" false]
  distinct := by decide

def city : Entity where
  name := "City"
  marker := .entity
  attributes := [.id "id" "Long", .scalar "mayor" "String"]
  distinct := by decide

def requests : List Registry.Request :=
  [.register guest, .finalize, .register key, .register address, .register key, .register city]

def table : Table :=
  [guest, key, address, city].foldl Table.insert {}

theorem keys_but_no_city :
    ∃ s, (Registry.after {} requests).finalize = (.ok (), s) ∧
      (∀ name, SchemaStore.lookup table name = s.lookup name) ∧
      SchemaStore.reaches table "Guest" "Key" = true ∧
      ReflTransGen (Entity.Leads s.entities) "Guest" "Key" ∧
      SchemaStore.reaches table "Guest" "City" = false ∧
      ¬ ReflTransGen (Entity.Leads s.entities) "Guest" "City" ∧
      SchemaStore.reaches table "Porter" "Guest" = s.reaches "Porter" "Guest" := by
  let s : Registry := {
    entities := [guest, key, address, city]
    graph := some (.ofEntities [guest, key, address, city]) }
  have hfinal : (Registry.after {} requests).finalize = (.ok (), s) := rfl
  have hlookup : ∀ name, SchemaStore.lookup table name = s.lookup name := by
    intro name
    have hdistinct : (s.entities.map Entity.name).Nodup := by decide
    exact find?_key_of_perm (List.reverse_perm s.entities) hdistinct name
  have hagree (start goal : Name) :
      SchemaStore.reaches table start goal = s.reaches start goal ∧
        (s.reaches start goal = true ↔ ReflTransGen (Entity.Leads s.entities) start goal) :=
    have hboth := Registry.reaches_agree hfinal AssociationGraph.connects_iff hlookup start goal
    ⟨hboth.2.1.symm, hboth.2.2⟩
  have hkey : s.reaches "Guest" "Key" = true := by decide +kernel
  have hcity : s.reaches "Guest" "City" = false := by decide +kernel
  refine ⟨s, hfinal, hlookup, ?_, (hagree _ _).2.mp hkey, ?_, ?_, (hagree _ _).1⟩
  · rw [(hagree _ _).1]
    exact hkey
  · rw [(hagree _ _).1]
    exact hcity
  · rw [← (hagree _ _).2, hcity]
    exact Bool.false_ne_true

end Lodging

end Projection
