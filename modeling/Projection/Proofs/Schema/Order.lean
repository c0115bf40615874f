import Projection.Dto.Compile
import Projection.Proofs.Schema.Reachability

/-!
# The order of registration

Compilation sees a registry through its `Schema` alone, which finds entities by their names and
tells which of them lead to which. Neither depends on the order of the entities, as long as their
names are distinct, and nor does the check that `finalize` makes. The first fault that it finds does
depend on the order, but compilation never sees it.
-/

namespace Projection.Registry

variable {r r' s s' : Registry} {entities entities' : List Entity}

/-- Entities with new and distinct names are all taken. -/
theorem registerAll_eq_ok (hopen : r.isFinalized = false)
    (hdistinct : (r.names ++ entities.map (·.name)).Nodup) :
    r.registerAll entities = (.ok (), { r with entities := r.entities ++ entities }) := by
  induction entities generalizing r with
  | nil =>
    rw [List.append_nil]
    rfl
  | cons e entities ih =>
    have hsplit : r.names ++ (e :: entities).map (·.name) =
        ({ r with entities := r.entities ++ [e] } : Registry).names ++ entities.map (·.name) := by
      simp [names]
    have hnew : e.name ∉ r.names := fun hmem =>
      (List.nodup_append.mp hdistinct).2.2 _ hmem _ List.mem_cons_self rfl
    have hfirst := register_eq_ok_iff.mpr ⟨hopen, hnew, rfl⟩
    rw [hsplit] at hdistinct
    have hrest := ih (r := { r with entities := r.entities ++ [e] }) hopen hdistinct
    rw [List.append_assoc] at hrest
    rw [registerAll, hfirst]
    exact hrest

theorem ofEntities_eq_ok (policy : Policy) (hdistinct : (entities.map (·.name)).Nodup) :
    ofEntities policy entities = (.ok (), { policy, entities }) :=
  registerAll_eq_ok rfl hdistinct

theorem Closed.of_perm (h : r.Closed) (hperm : r.entities.Perm r'.entities) : r'.Closed where
  target e he a ha target htarget :=
    (hperm.map _).mem_iff.mp (h.target e (hperm.mem_iff.mpr he) a ha target htarget)
  idView e he a ha viewed hviewed := h.idView e (hperm.mem_iff.mpr he) a ha viewed hviewed

theorem lookup_of_perm (hdistinct : r.names.Nodup) (hperm : r.entities.Perm r'.entities)
    (name : Name) : r.lookup name = r'.lookup name :=
  find?_key_of_perm hperm ((hperm.map _).nodup_iff.mp hdistinct) name

/-- Registries with the same entities give the same schema. -/
theorem schema_of_perm (h : r.finalize = (.ok (), s)) (h' : r'.finalize = (.ok (), s'))
    (hdistinct : r.names.Nodup) (hperm : r.entities.Perm r'.entities) :
    SchemaStore.schema s = SchemaStore.schema s' := by
  have hdistinct' : r'.names.Nodup := (hperm.map _).nodup_iff.mp hdistinct
  have hreaches : s.reaches = s'.reaches := by
    funext start goal
    rw [Bool.eq_iff_iff, reaches_iff h hdistinct, reaches_iff h' hdistinct']
    obtain ⟨_, _, rfl⟩ := finalize_eq_ok_iff.mp h
    obtain ⟨_, _, rfl⟩ := finalize_eq_ok_iff.mp h'
    rw [Entity.leads_of_perm hperm]
  have hlookup : s.lookup = s'.lookup := by
    obtain ⟨_, _, rfl⟩ := finalize_eq_ok_iff.mp h
    obtain ⟨_, _, rfl⟩ := finalize_eq_ok_iff.mp h'
    exact funext fun name => lookup_of_perm hdistinct hperm name
  show Schema.mk s.lookup s.reaches = Schema.mk s'.lookup s'.reaches
  rw [hlookup, hreaches]

theorem finalizes_of_perm (hopen : r'.isFinalized = false) (hperm : r.entities.Perm r'.entities)
    (h : r.finalize = (.ok (), s)) : ∃ s', r'.finalize = (.ok (), s') := by
  obtain ⟨_, hclosed, _⟩ := finalize_eq_ok_iff.mp h
  exact ⟨_, finalize_eq_ok_iff.mpr ⟨hopen, hclosed.of_perm hperm, rfl⟩⟩

/-- **The order of registration does not matter.** Two lists of the same entities, with distinct
names, are both taken by empty registries, of any policies. Either both can be finalized or neither.
If they can, every source compiles to the same types with both, or is refused for the same fault. -/
theorem compile_of_perm (hdistinct : (entities.map (·.name)).Nodup)
    (hperm : entities.Perm entities') (policy policy' : Policy) :
    ∃ r r', ofEntities policy entities = (.ok (), r) ∧
      ofEntities policy' entities' = (.ok (), r') ∧
      ((∃ s, r.finalize = (.ok (), s)) ↔ ∃ s', r'.finalize = (.ok (), s')) ∧
      ∀ s s', r.finalize = (.ok (), s) → r'.finalize = (.ok (), s') →
        ∀ {P : Type} (source : Source P) (defaults : Defaults),
          source.compile (SchemaStore.schema s) defaults =
            source.compile (SchemaStore.schema s') defaults := by
  have hdistinct' : (entities'.map (·.name)).Nodup := (hperm.map _).nodup_iff.mp hdistinct
  refine ⟨_, _, ofEntities_eq_ok policy hdistinct, ofEntities_eq_ok policy' hdistinct',
    ⟨?_, ?_⟩, ?_⟩
  · rintro ⟨s, hs⟩
    exact finalizes_of_perm rfl hperm hs
  · rintro ⟨s', hs'⟩
    exact finalizes_of_perm rfl hperm.symm hs'
  · intro s s' hs hs' P source defaults
    rw [schema_of_perm hs hs' hdistinct hperm]

end Projection.Registry

/-! ### An example

A card of a guest cannot have the city of the guest's home as a recursive property, since no city
leads back to an address. The fault says so, in whatever order the entities were registered. -/

namespace Projection.Lodging

def card : Source Unit where
  entity := ⟨"Guest", ()⟩
  modifiers := []
  declarations := [{
    name := ⟨"Card", ()⟩
    tags := []
    modifiers := []
    body := ⟨[.nested ⟨⟨"home", ()⟩, false, none, none⟩
      [.plain ⟨⟨"city", ()⟩, true, none, none⟩] ()], ()⟩ }]

theorem card_refused_in_any_order :
    ∃ r r' s s', Registry.ofEntities {} [guest, key, address, city] = (.ok (), r) ∧
      Registry.ofEntities {} [city, address, key, guest] = (.ok (), r') ∧
      r.finalize = (.ok (), s) ∧ r'.finalize = (.ok (), s') ∧
      card.compile (SchemaStore.schema s) {} = card.compile (SchemaStore.schema s') {} ∧
      card.compile (SchemaStore.schema s') {} = .error (.within "Card"
        (.ineligible .recursion ⟨"city", ()⟩ (.notEnclosing "city" "City" "Address" false))) := by
  have hperm : [guest, key, address, city].Perm [city, address, key, guest] :=
    (List.reverse_perm [guest, key, address, city]).symm
  obtain ⟨r, r', hr, hr', _, hcompile⟩ :=
    Registry.compile_of_perm (by decide) hperm ({} : Policy) ({} : Policy)
  cases hr
  cases hr'
  exact ⟨_, _, _, _, rfl, rfl, rfl, rfl, hcompile _ _ rfl rfl card {}, rfl⟩

end Projection.Lodging
