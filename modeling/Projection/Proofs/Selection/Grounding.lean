import Projection.Proofs.Selection.Expansion

/-!
# Selections are grounded in the schema

A selection says where its property comes from: the entity that has it, the flattened attributes on
the way there, and the form in which it is put out. These parts are filled in at different places
while bodies are expanded, and renaming and flattening change some of them later. A selection is
*grounded* at an entity, within enclosing types, if they fit together:

* its path is a route of the schema from the entity to the one it names, and it remembers whether an
  attribute on that route is nullable;
* an id-only selection reads an association;
* a recursive one reads an association to the entity of the innermost enclosing type that has such
  an entity, and names that type;
* a nested one reads an attribute whose target is the entity of its own selections, and these are
  grounded there, with one more enclosing type.

`Expands.grounded` proves this of everything that bodies expand to.
-/

namespace Projection

variable {P : Type} {schema : Schema}

/-- The path of the pick is a route through these attributes. -/
structure Pick.Follows (schema : Schema) (start : Name) (via : List Attribute) (pick : Pick P) :
    Prop where
  route : schema.Route start via pick.entity
  path : pick.path = via.map (·.name)
  throughNullable : pick.throughNullable = via.any (·.nullable)

/-- The attribute that the pick reads. -/
def Pick.Reads (schema : Schema) (pick : Pick P) (a : Attribute) : Prop :=
  schema.attribute? pick.entity pick.source.val = some a

/-- The form is one that the attribute of the pick can take within these types. -/
def Form.Fits (schema : Schema) (scopes : List Scope) (pick : Pick P) : Form → Prop
  | .value => True
  | .idOnly => ∃ a, pick.Reads schema a ∧ a.kind.isAssociation = true
  | .recursive type => ∃ a target many scope, pick.Reads schema a ∧
      a.kind = .association target many ∧ scopes.find? (·.entity == target) = some scope ∧
      scope.type = type

theorem Pick.follows_nil {pick : Pick P} {entity : Name} (hentity : pick.entity = entity)
    (hpath : pick.path = []) (hthrough : pick.throughNullable = false) :
    pick.Follows schema entity [] := by
  subst hentity
  exact ⟨.here _, hpath, hthrough⟩

/-- The form depends on the entity and the source of the pick only. -/
theorem Form.Fits.of_eq {scopes : List Scope} {pick pick' : Pick P} {form : Form}
    (h : form.Fits schema scopes pick) (hentity : pick'.entity = pick.entity)
    (hsource : pick'.source = pick.source) : form.Fits schema scopes pick' := by
  cases form <;> simp only [Form.Fits, Pick.Reads, hentity, hsource] <;> exact h

namespace Selection

/-- The selection is grounded at an entity, within enclosing types. -/
inductive Grounded (schema : Schema) : Name → List Scope → Selection P → Prop
  | leaf {start scopes pick form} (via : List Attribute) :
      pick.Follows schema start via → form.Fits schema scopes pick →
      Grounded schema start scopes (.leaf pick form)
  | nested {start scopes pick a target type inner} (via : List Attribute) :
      pick.Follows schema start via → pick.Reads schema a → a.kind.target? = some target →
      type = nestedTypeName pick.source.val →
      (∀ s ∈ inner, Grounded schema target (⟨target, type⟩ :: scopes) s) →
      Grounded schema start scopes (.nested pick target type inner)

/-! ### Renaming and flattening -/

/-- A change to the pick of a selection keeps it grounded, if it leaves the entity and the source as
they are and takes routes to routes. -/
theorem Grounded.mapPick {f : Pick P → Pick P} {start start' : Name} {scopes : List Scope}
    {s : Selection P} (h : Grounded schema start scopes s)
    (hentity : ∀ pick, (f pick).entity = pick.entity)
    (hsource : ∀ pick, (f pick).source = pick.source)
    (hroute : ∀ pick via, pick.Follows schema start via →
      ∃ via', (f pick).Follows schema start' via') :
    Grounded schema start' scopes (s.mapPick f) := by
  cases h with
  | leaf via hvia hfits =>
    obtain ⟨via', hvia'⟩ := hroute _ via hvia
    exact .leaf via' hvia' (Form.Fits.of_eq hfits (hentity _) (hsource _))
  | nested via hvia hreads htarget htype hinner =>
    obtain ⟨via', hvia'⟩ := hroute _ via hvia
    refine .nested via' hvia' ?_ htarget ?_ hinner
    · rw [Pick.Reads, hentity, hsource]
      exact hreads
    · rw [hsource]
      exact htype

theorem grounded_renamed {start : Name} {scopes : List Scope} {pattern : Option AliasPattern}
    {item : Item P} {selected : List (Selection P)}
    (h : ∀ s ∈ selected, Grounded schema start scopes s) :
    ∀ s ∈ renamed pattern item selected, Grounded schema start scopes s := by
  intro s hs
  rw [renamed_eq_map] at hs
  obtain ⟨t, ht, rfl⟩ := List.mem_map.mp hs
  refine (h t ht).mapPick (by simp) (by simp) ?_
  intro pick via hvia
  -- Only the name changes, so the route stays as it was.
  exact ⟨via, by simpa using hvia.route, by simpa using hvia.path,
    by simpa using hvia.throughNullable⟩

/-- Seen from before a flattened attribute, a route is one step longer. -/
theorem Grounded.through {entity target lead : Name} {scopes : List Scope} {a : Attribute}
    {s : Selection P} (ha : schema.Declares entity a) (ht : a.kind.single? = some target)
    (h : Grounded schema target scopes s) :
    Grounded schema entity scopes (s.through lead a) := by
  refine h.mapPick (fun _ => rfl) (fun _ => rfl) ?_
  intro pick via hvia
  refine ⟨a :: via, .step ha ht hvia.route, ?_, ?_⟩
  · rw [List.map_cons, ← hvia.path]
  · rw [List.any_cons, ← hvia.throughNullable, Bool.or_comm]

/-! ### Items and bodies -/

theorem declares_of_macroAttributes {entity : Name} {name : Located P Name}
    {attributes : List Attribute} (h : macroAttributes schema entity name = .ok attributes)
    {a : Attribute} (ha : a ∈ attributes) : schema.Declares entity a := by
  unfold macroAttributes at h
  split at h
  · cases h
    exact Schema.mem_attributesOf.mp (List.mem_filter.mp ha).1
  · split at h
    · cases h
      exact Schema.mem_attributesOf.mp (List.mem_filter.mp ha).1
    · cases h

theorem grounded_ofMacro {entity : Name} {scopes : List Scope} {name : Located P Name}
    {nullability : Option (Located P Nullability)} {a : Attribute}
    (ha : schema.Declares entity a) :
    Grounded schema entity scopes (ofMacro entity name nullability a) := by
  unfold ofMacro
  split
  · rename_i hassoc
    exact .leaf [] (Pick.follows_nil rfl rfl rfl) ⟨a, ha.attribute?, hassoc⟩
  · exact .leaf [] (Pick.follows_nil rfl rfl rfl) trivial

theorem Yields.grounded {site : Site} {item : Item P} {selected : List (Selection P)}
    (h : Yields schema site item selected) :
    ∀ s ∈ selected, Grounded schema site.entity site.scopes s := by
  intro s hs
  cases h with
  | bundle hattributes =>
    obtain ⟨a, ha, rfl⟩ := List.mem_map.mp hs
    exact grounded_ofMacro (declares_of_macroAttributes hattributes (List.mem_filter.mp ha).1)
  | negative => cases hs
  | user => cases hs
  | plain | unknown | idView =>
    rw [List.mem_singleton] at hs
    subst hs
    exact .leaf [] (Pick.follows_nil rfl rfl rfl) trivial
  | recursive _ ha hkind hscope =>
    rw [List.mem_singleton] at hs
    subst hs
    exact .leaf [] (Pick.follows_nil rfl rfl rfl) ⟨_, _, _, _, ha, hkind, hscope, rfl⟩
  | idOnly ha hassoc =>
    rw [List.mem_singleton] at hs
    subst hs
    exact .leaf [] (Pick.follows_nil rfl rfl rfl) ⟨_, ha, hassoc⟩

/-- **Everything that items expand to is grounded** at the entity they stand at, within the types
around them. -/
theorem Expands.grounded {site : Site} {items : List (Item P)} {selections : List (Selection P)}
    (h : Expands schema site items selections) :
    ∀ s ∈ selections, Grounded schema site.entity site.scopes s := by
  -- In each case the selections of the item come before those of the rest, which `ihrest` covers.
  induction h with
  | nil =>
    intro s hs
    cases hs
  | single hitem _ ihrest =>
    exact List.forall_mem_append.mpr ⟨grounded_renamed hitem.grounded, ihrest⟩
  | nested _ ha ht _ _ ihbody ihrest =>
    refine List.forall_mem_append.mpr ⟨grounded_renamed ?_, ihrest⟩
    intro t htmem
    rw [List.mem_singleton] at htmem
    subst htmem
    exact .nested [] (Pick.follows_nil rfl rfl rfl) ha ht rfl
      fun u hu => ihbody u (mem_of_mem_kept hu)
  | flatten ha ht _ _ ihbody ihrest =>
    refine List.forall_mem_append.mpr ⟨grounded_renamed ?_, ihrest⟩
    intro t htmem
    obtain ⟨u, hu, rfl⟩ := List.mem_map.mp htmem
    have hdecl := (Schema.attribute?_eq_some_iff.mp ha).1
    exact Grounded.through hdecl ht (ihbody u (mem_of_mem_kept hu))
  | group _ _ _ ihbody ihrest =>
    exact List.forall_mem_append.mpr ⟨grounded_renamed ihbody, ihrest⟩

end Selection

end Projection
