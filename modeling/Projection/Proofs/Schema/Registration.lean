import Mathlib.Data.List.Induction
import Mathlib.Data.List.Nodup
import Projection.Schema.Registry

/-!
# Registration

A registry is asked to take entities and to end registration, in any order and any number of times.
Each request leaves a registry, granted or not, and one that was refused leaves the registry it was
made to (`Registry.register_cases`, `Registry.finalize_cases`): after a failed `finalize` the
missing entities can still be registered, and `finalize` tried again.

`Registry.after` is the registry that requests lead to from an empty one, and `Registry.history` the
requests with their answers. `Registry.Consistent` relates the two. It holds at the start and each
request keeps it (`Consistent.perform`), so it holds after any requests.
-/

namespace Projection

/-- With distinct keys, a search by key finds the one element with that key. -/
theorem find?_key_eq_some_iff {α : Type} {key : α → Name} {as : List α} (h : (as.map key).Nodup)
    {name : Name} {a : α} : as.find? (key · == name) = some a ↔ a ∈ as ∧ key a = name := by
  constructor
  · intro hfind
    exact ⟨List.mem_of_find?_eq_some hfind, by simpa using List.find?_some hfind⟩
  · rintro ⟨ha, rfl⟩
    cases hfind : as.find? (key · == key a) with
    | none => exact absurd (List.find?_eq_none.mp hfind a ha) (by simp)
    | some b =>
      have hb := List.mem_of_find?_eq_some hfind
      have hkey : key b = key a := by simpa using List.find?_some hfind
      rw [List.inj_on_of_nodup_map h hb ha hkey]

/-- With distinct keys, the order does not count for a search by key. -/
theorem find?_key_of_perm {α : Type} {key : α → Name} {as bs : List α} (hperm : as.Perm bs)
    (h : (bs.map key).Nodup) (name : Name) :
    as.find? (key · == name) = bs.find? (key · == name) := by
  have h' : (as.map key).Nodup := (hperm.map _).nodup_iff.mpr h
  ext a
  rw [find?_key_eq_some_iff h, find?_key_eq_some_iff h', hperm.mem_iff]

theorem Entity.any_attribute?_iff {e : Entity} {name : Name} {p : Attribute → Bool} :
    (e.attribute? name).any p = true ↔ ∃ a ∈ e.attributes, a.name = name ∧ p a = true := by
  rw [Option.any_eq_true]
  constructor
  · rintro ⟨a, ha, hp⟩
    obtain ⟨hmem, hname⟩ := (find?_key_eq_some_iff e.distinct).mp ha
    exact ⟨a, hmem, hname, hp⟩
  · rintro ⟨a, hmem, hname, hp⟩
    exact ⟨a, (find?_key_eq_some_iff e.distinct).mpr ⟨hmem, hname⟩, hp⟩

namespace Registry

/-- The names of the entities. -/
def names (r : Registry) : List Name :=
  r.entities.map (·.name)

/-- Every association and every embedded value has a registered target, and every id view is one of
an association of its own entity. -/
structure Closed (r : Registry) : Prop where
  target : ∀ e ∈ r.entities, ∀ a ∈ e.attributes, ∀ target, a.kind.target? = some target →
    target ∈ r.names
  idView : ∀ e ∈ r.entities, ∀ a ∈ e.attributes, ∀ viewed, a.kind = .idView viewed →
    ∃ b ∈ e.attributes, b.name = viewed ∧ b.kind.isAssociation = true

/-! ### Single requests -/

section Requests

variable {r r' : Registry} {e : Entity} {a : Attribute} {name : Name}

theorem lookup_isSome_iff : (r.lookup name).isSome = true ↔ name ∈ r.names := by
  rw [lookup, List.find?_isSome, names, List.mem_map]
  simp only [beq_iff_eq]

/-- A registration is refused, and the registry stays, or the registry has one more entity. -/
theorem register_cases (r : Registry) (e : Entity) :
    (∃ fault, r.register e = (.error fault, r)) ∨
      r.isFinalized = false ∧ e.name ∉ r.names ∧
        r.register e = (.ok (), { r with entities := r.entities ++ [e] }) := by
  unfold register
  split
  · exact .inl ⟨_, rfl⟩
  · rename_i hopen
    split
    · exact .inl ⟨_, rfl⟩
    · rename_i hnew
      exact .inr ⟨eq_false_of_ne_true hopen, mt lookup_isSome_iff.mpr hnew, rfl⟩

theorem register_eq_ok_iff : r.register e = (.ok (), r') ↔
    r.isFinalized = false ∧ e.name ∉ r.names ∧ r' = { r with entities := r.entities ++ [e] } := by
  constructor
  · intro h
    rcases r.register_cases e with ⟨fault, hrefused⟩ | ⟨hopen, hnew, hgranted⟩
    · rw [hrefused] at h
      cases h
    · rw [hgranted] at h
      cases h
      exact ⟨hopen, hnew, rfl⟩
  · rintro ⟨hopen, hnew, rfl⟩
    have hfree : ¬(r.lookup e.name).isSome = true := mt lookup_isSome_iff.mp hnew
    rw [register, if_neg (by simp [hopen]), if_neg hfree]

/-- An attribute is in order if it has no target or a registered one, and is no id view or one of an
association. -/
theorem fault?_eq_none_iff : r.fault? e a = none ↔
    (∀ target, a.kind.target? = some target → target ∈ r.names) ∧
      ∀ viewed, a.kind = .idView viewed →
        ∃ b ∈ e.attributes, b.name = viewed ∧ b.kind.isAssociation = true := by
  simp only [← lookup_isSome_iff, ← Entity.any_attribute?_iff]
  unfold fault?
  cases a.kind with
  | association target many => simp [Kind.target?, Option.isSome_iff_ne_none]
  | scalar embedded => cases embedded <;> simp [Kind.target?, Option.isSome_iff_ne_none]
  | idView viewed => simp [Kind.target?]
  | _ => simp [Kind.target?]

theorem firstFault?_eq_none_iff : r.firstFault? = none ↔ r.Closed := by
  simp only [firstFault?, List.findSome?_eq_none_iff, fault?_eq_none_iff]
  exact ⟨fun h => ⟨fun e he a ha => (h e he a ha).1, fun e he a ha => (h e he a ha).2⟩,
    fun h e he a ha => ⟨h.target e he a ha, h.idView e he a ha⟩⟩

/-- Finalization is refused, and the registry stays, or the registry is closed and has its graph. -/
theorem finalize_cases (r : Registry) :
    (∃ fault, r.finalize = (.error fault, r)) ∨
      r.isFinalized = false ∧ r.Closed ∧
        r.finalize = (.ok (), { r with graph := some r.associations }) := by
  unfold finalize
  split
  · exact .inl ⟨_, rfl⟩
  · rename_i hopen
    split
    · exact .inl ⟨_, rfl⟩
    · rename_i hnone
      exact .inr ⟨eq_false_of_ne_true hopen, firstFault?_eq_none_iff.mp hnone, rfl⟩

theorem finalize_eq_ok_iff : r.finalize = (.ok (), r') ↔
    r.isFinalized = false ∧ r.Closed ∧ r' = { r with graph := some r.associations } := by
  constructor
  · intro h
    rcases r.finalize_cases with ⟨fault, hrefused⟩ | ⟨hopen, hclosed, hgranted⟩
    · rw [hrefused] at h
      cases h
    · rw [hgranted] at h
      cases h
      exact ⟨hopen, hclosed, rfl⟩
  · rintro ⟨hopen, hclosed, rfl⟩
    rw [finalize, if_neg (by simp [hopen]), firstFault?_eq_none_iff.mpr hclosed]

end Requests

/-! ### Requests in sequence -/

/-- What can be asked of a registry. -/
inductive Request where
  | register (e : Entity)
  | finalize

/-- A request with its answer. -/
abbrev Event := Request × Except SchemaFault Unit

/-- The answer to a request, and the registry after it. -/
def perform (r : Registry) : Request → Except SchemaFault Unit × Registry
  | .register e => r.register e
  | .finalize => r.finalize

/-- Requests in their order, each with its answer, and the registry after them. -/
def performAll (r : Registry) : List Request → List Event × Registry
  | [] => ([], r)
  | request :: requests =>
    let rest := (r.perform request).2.performAll requests
    ((request, (r.perform request).1) :: rest.1, rest.2)

/-- What requests to an empty registry were answered. -/
def history (policy : Policy) (requests : List Request) : List Event :=
  (performAll { policy } requests).1

/-- The registry after requests to an empty one. -/
def after (policy : Policy) (requests : List Request) : Registry :=
  (performAll { policy } requests).2

/-- The entities that were taken. -/
def accepted (events : List Event) : List Entity :=
  events.filterMap fun
    | (.register e, .ok ()) => some e
    | _ => none

theorem performAll_concat (r : Registry) (requests : List Request) (request : Request) :
    r.performAll (requests ++ [request]) =
      ((r.performAll requests).1 ++ [(request, ((r.performAll requests).2.perform request).1)],
        ((r.performAll requests).2.perform request).2) := by
  induction requests generalizing r with
  | nil => rfl
  | cons first requests ih =>
    rw [List.cons_append, performAll, ih]
    rfl

/-- A request is granted or leaves the registry as it is. -/
theorem perform_cases (r : Registry) (request : Request) :
    (∃ r', r.perform request = (.ok (), r')) ∨ ∃ fault, r.perform request = (.error fault, r) := by
  cases request with
  | register e =>
    rcases r.register_cases e with hrefused | ⟨_, _, hgranted⟩
    · exact .inr hrefused
    · exact .inl ⟨_, hgranted⟩
  | finalize =>
    rcases r.finalize_cases with hrefused | ⟨_, _, hgranted⟩
    · exact .inr hrefused
    · exact .inl ⟨_, hgranted⟩

theorem granted_iff {r : Registry} {request : Request} :
    (r.perform request).1 = .ok () ↔ ∃ r', r.perform request = (.ok (), r') := by
  rcases r.perform_cases request with ⟨r', hperform⟩ | ⟨fault, hperform⟩ <;> simp [hperform]

theorem perform_of_refused {r : Registry} {request : Request} {fault : SchemaFault}
    (h : (r.perform request).1 = .error fault) : (r.perform request).2 = r := by
  rcases r.perform_cases request with ⟨r', hperform⟩ | ⟨fault, hperform⟩
  · rw [hperform] at h
    cases h
  · rw [hperform]

theorem perform_of_isFinalized {r : Registry} (h : r.isFinalized = true) (request : Request) :
    r.perform request = (.error .finalized, r) := by
  cases request <;> simp [perform, register, finalize, h]

/-- How a registry and the events that led to it hang together. -/
structure Consistent (events : List Event) (r : Registry) : Prop where
  entities : r.entities = accepted events
  distinct : r.names.Nodup
  finalized : r.isFinalized = true ↔ (.finalize, .ok ()) ∈ events
  closed : r.isFinalized = true → r.Closed
  frozen : events.Pairwise fun earlier later =>
    earlier = (.finalize, .ok ()) → later.2 = .error .finalized

theorem consistent_empty (policy : Policy) : Consistent [] { policy } where
  entities := rfl
  distinct := List.nodup_nil
  finalized := ⟨nofun, nofun⟩
  closed := nofun
  frozen := .nil

/-- One more request keeps a registry and its events consistent. -/
theorem Consistent.perform {events : List Event} {r : Registry} (h : Consistent events r)
    (request : Request) :
    Consistent (events ++ [(request, (r.perform request).1)]) (r.perform request).2 := by
  -- Whatever comes after a granted `finalize` is refused, since the registry is finalized.
  have hfrozen : (events ++ [(request, (r.perform request).1)]).Pairwise fun earlier later =>
      earlier = (.finalize, .ok ()) → later.2 = .error .finalized := by
    refine List.pairwise_append.mpr ⟨h.frozen, List.pairwise_singleton .., ?_⟩
    rintro earlier hearlier later hlater rfl
    rw [List.mem_singleton.mp hlater, perform_of_isFinalized (h.finalized.mpr hearlier)]
  rcases r.perform_cases request with ⟨r', hperform⟩ | ⟨fault, hperform⟩
  · rw [hperform] at hfrozen ⊢
    cases request with
    | register e =>
      obtain ⟨hopen, hnew, rfl⟩ := register_eq_ok_iff.mp hperform
      refine ⟨?_, ?_, ?_, fun hfinal => ?_, hfrozen⟩
      · simp [accepted, h.entities]
      · rw [names, List.map_append, List.map_singleton, ← List.concat_eq_append]
        exact h.distinct.concat hnew
      · exact h.finalized.trans (by simp)
      · exact absurd (hopen.symm.trans hfinal) Bool.false_ne_true
    | finalize =>
      obtain ⟨_, hclosed, rfl⟩ := finalize_eq_ok_iff.mp hperform
      refine ⟨?_, h.distinct, ?_, fun _ => ⟨hclosed.target, hclosed.idView⟩, hfrozen⟩
      · simp [accepted, h.entities]
      · simp [isFinalized]
  · rw [hperform] at hfrozen ⊢
    refine ⟨?_, h.distinct, h.finalized.trans (by simp), h.closed, hfrozen⟩
    simp [accepted, h.entities]

theorem consistent_after (policy : Policy) (requests : List Request) :
    Consistent (history policy requests) (after policy requests) := by
  induction requests using List.reverseRecOn with
  | nil => exact consistent_empty policy
  | append_singleton requests request ih =>
    rw [history, after, performAll_concat]
    exact ih.perform request

/-- **Registration.** Take any requests to an empty registry, and the registry after them. Its
entities are those whose registration was granted, in that order, and their names are distinct. A
request that is refused leaves it as it is. It is finalized exactly if a `finalize` was granted, and
every request after that one was refused because of it. A finalized registry is closed: each
association and each embedded value has a registered target, and each id view an association of its
entity. While it is not finalized, any entity with a new name is taken, and `finalize` is granted
exactly if the registry is closed, whatever was refused before. -/
theorem registration_invariant (policy : Policy) (requests : List Request) :
    (after policy requests).entities = accepted (history policy requests) ∧
    (after policy requests).names.Nodup ∧
    (∀ request fault,
      history policy (requests ++ [request]) =
        history policy requests ++ [(request, .error fault)] →
      after policy (requests ++ [request]) = after policy requests) ∧
    ((after policy requests).isFinalized = true ↔ (.finalize, .ok ()) ∈ history policy requests) ∧
    ((history policy requests).Pairwise fun earlier later =>
      earlier = (.finalize, .ok ()) → later.2 = .error .finalized) ∧
    ((after policy requests).isFinalized = true → (after policy requests).Closed) ∧
    (∀ e : Entity, ((after policy requests).perform (.register e)).1 = .ok () ↔
      (after policy requests).isFinalized = false ∧ e.name ∉ (after policy requests).names) ∧
    (((after policy requests).perform .finalize).1 = .ok () ↔
      (after policy requests).isFinalized = false ∧ (after policy requests).Closed) := by
  have h := consistent_after policy requests
  refine ⟨h.entities, h.distinct, fun request fault hrefused => ?_, h.finalized, h.frozen, h.closed,
    fun e => granted_iff.trans (by simp [perform, register_eq_ok_iff]),
    granted_iff.trans (by simp [perform, finalize_eq_ok_iff])⟩
  -- The last answer in the longer history is that of the registry after the other requests.
  simp only [history, after, performAll_concat] at hrefused ⊢
  obtain ⟨_, hlast⟩ := List.append_inj' hrefused rfl
  have hanswer : ((performAll { policy } requests).2.perform request).1 = .error fault :=
    congrArg Prod.snd (List.singleton_injective hlast)
  exact perform_of_refused hanswer

end Registry

end Projection
