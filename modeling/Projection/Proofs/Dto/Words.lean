import Projection.Proofs.Dto.Distinct
import Projection.Proofs.Selection.Words
import Projection.Proofs.Source.Pointing

/-!
# Words in the output

The names in the output are made from names of the source and of the schema: a prefix goes before a
name, a suffix behind it, and a pattern cuts or replaces a part of it. Nothing looks at the result.

`Item.Renames` says which names the patterns of a body are given to rename. If the names of the
schema are words, then a name in the output is no word exactly if it is what a pattern of the body
leaves of such a name with a digit in front (`Source.compile_words`). `Postal.label_is_no_word` is a
source where this happens.
-/

namespace Projection

variable {P : Type} {schema : Schema}

/-- The names of a source are words, and its patterns can be written. -/
def Part.IsProper : Part P → Prop
  | name w => Token.isWord w.val = true
  | pattern p => p.val.IsProper
  | bundle _ | modifier _ | body _ => True

/-- All attributes have words for names. -/
def Schema.HasWords (schema : Schema) : Prop :=
  ∀ entity, ∀ a ∈ schema.attributesOf entity, Token.isWord a.name = true

/-- The schema of a registry has words for names if all attributes in it have. -/
theorem Registry.hasWords_schema {r : Registry}
    (h : ∀ e ∈ r.entities, ∀ a ∈ e.attributes, Token.isWord a.name = true) :
    (SchemaStore.schema r).HasWords := by
  intro entity a ha
  have hlookup : (SchemaStore.schema r).attributesOf entity =
      ((r.entities.find? (·.name == entity)).map (·.attributes)).getD [] := rfl
  rw [hlookup] at ha
  cases hentity : r.entities.find? (·.name == entity) with
  | none =>
    rw [hentity] at ha
    cases ha
  | some e =>
    rw [hentity] at ha
    exact h e (List.mem_of_find?_eq_some hentity) a ha

/-- Among items in a group with this pattern, or in none, a pattern is given a name to rename: that
of an item in its group which has no alias and puts out a name that no other group gave. -/
inductive Item.Renames (schema : Schema) (entity : Name) (explicit : List Name) :
    Option AliasPattern → List (Item P) → AliasPattern → Name → Prop
  | here {pattern : AliasPattern} {items : List (Item P)} {item : Item P} {e : Entry P} :
      item ∈ items → item.hasAlias = false → e ∈ entries schema entity explicit item →
      e.output.given = false →
      Renames schema entity explicit (some pattern) items pattern e.output.name
  | inner {around : Option AliasPattern} {items body : List (Item P)}
      {located : Located P AliasPattern} {extent : P} {pattern : AliasPattern} {name : Name} :
      .group located body extent ∈ items →
      Renames schema entity explicit (some located.val) body pattern name →
      Renames schema entity explicit around items pattern name

/-- A pattern in the body is given a name to rename. -/
def Item.BodyRenames (schema : Schema) (entity : Name) (items : List (Item P)) :
    AliasPattern → Name → Prop :=
  Renames schema entity (Selection.explicitNamesAll items) none items

/-! ### Outputs -/

namespace Output

/-- The name is a word, or it is given by one of the renamings and has a digit in front. -/
def IsSound (R : AliasPattern → Name → Prop) (o : Output) : Prop :=
  Token.isWord o.name = true ∨
    o.given = true ∧ ∃ pattern original, R pattern original ∧ pattern.LeavesDigit original o.name

variable {R R' : AliasPattern → Name → Prop} {o : Output}

theorem IsSound.mono (h : o.IsSound R) (hR : ∀ pattern name, R pattern name → R' pattern name) :
    o.IsSound R' := by
  rcases h with hword | ⟨hgiven, pattern, original, hr, hleaves⟩
  · exact .inl hword
  · exact .inr ⟨hgiven, pattern, original, hR pattern original hr, hleaves⟩

theorem IsSound.all (h : o.IsSound R) : o.name.toList.all Token.isWordChar = true := by
  rcases h with hword | ⟨_, _, _, _, hleaves⟩
  · exact Token.all_of_isWord hword
  · exact hleaves.all

/-- With a prefix every name is a word. -/
theorem IsSound.through (h : o.IsSound R) {lead : Name} (hlead : Token.isWord lead = true) :
    (o.through lead).IsSound R' :=
  .inl (Token.isWord_after hlead h.all)

/-- A group renames only what has no name of its own yet, and that is a word. -/
theorem IsSound.inGroup (h : o.IsSound R) {pattern : AliasPattern} (hproper : pattern.IsProper)
    {hasAlias : Bool} (hnew : hasAlias = false → o.given = false → R pattern o.name) :
    (o.inGroup (some pattern) hasAlias).IsSound R := by
  unfold Output.inGroup
  dsimp only
  split
  · exact h
  · rename_i hfree
    rw [Bool.or_eq_true, not_or, Bool.not_eq_true, Bool.not_eq_true] at hfree
    obtain ⟨halias, hgiven⟩ := hfree
    have hword : Token.isWord o.name = true := by
      rcases h with hword | ⟨hgiven', _⟩
      · exact hword
      · rw [hgiven] at hgiven'
        cases hgiven'
    rcases AliasPattern.isWord_apply hproper hword with hword | hleaves
    · exact .inl hword
    · exact .inr ⟨rfl, pattern, o.name, hnew halias hgiven, hleaves⟩

theorem isSound_ofAlias {newName : Option (Located P Name)} {name : Name}
    (hname : Token.isWord name = true)
    (hnew : ∀ w, newName = some w → Token.isWord w.val = true) :
    (Output.ofAlias newName name).IsSound R := by
  cases newName with
  | none => exact .inl hname
  | some w => exact .inl (hnew w rfl)

end Output

namespace Item

theorem isWord_idName {property : Name} (h : Token.isWord property = true) (many : Bool) :
    Token.isWord (idName property many) = true := by
  unfold idName
  split
  · split
    · rename_i hlast
      obtain ⟨front, hfront⟩ := List.getLast?_eq_some_iff.mp hlast
      have hsplit : property = String.ofList front ++ "s" := by
        refine String.toList_injective ?_
        rw [hfront, String.toList_append, String.toList_ofList]
        rfl
      rw [hfront, List.dropLast_concat]
      by_cases hempty : String.ofList front = ""
      · rw [hempty]
        decide
      · exact Token.isWord_append (Token.isWord_of_append (hsplit ▸ h) hempty) (by decide)
    · exact Token.isWord_append h (by decide)
  · exact Token.isWord_append h (by decide)

theorem isWord_idItemName (hschema : schema.HasWords) {entity property : Name}
    (h : Token.isWord property = true) :
    Token.isWord (idItemName schema entity property) = true := by
  unfold idItemName
  split
  · rename_i view hview
    obtain ⟨e, he, hview⟩ := Option.bind_eq_some_iff.mp hview
    refine hschema entity view ?_
    rw [Schema.attributesOf, he]
    exact List.mem_of_find?_eq_some hview
  · exact isWord_idName h _

theorem isWord_of_mem_macroNames (hschema : schema.HasWords) {entity macroName name : Name}
    {explicit : List Name} (h : name ∈ macroNames schema entity explicit macroName) :
    Token.isWord name = true := by
  have hfree {a : Attribute} {keep keep' : Attribute → Bool}
      (ha : a ∈ ((schema.attributesOf entity).filter keep).filter keep') :
      Token.isWord a.name = true :=
    hschema entity a (List.mem_of_mem_filter (List.mem_of_mem_filter ha))
  unfold macroNames at h
  dsimp only at h
  split at h
  · obtain ⟨a, ha, rfl⟩ := List.mem_map.mp h
    exact hfree ha
  · split at h
    · obtain ⟨a, ha, rfl⟩ := List.mem_map.mp h
      exact Token.isWord_append (hfree ha) (by decide)
    · cases h

end Item

/-! ### Entries of a body -/

/-- The output of an entry is sound, and the parts of its body are among the parts. -/
structure Entry.IsSound (parts : List (Part P)) (R : AliasPattern → Name → Prop) (e : Entry P) :
    Prop where
  output : e.output.IsSound R
  body : ∀ entity items, e.body = some (entity, items) → Item.partsAll items ⊆ parts

theorem Item.Renames.of_mem {entity : Name} {explicit : List Name} {around : Option AliasPattern}
    {item : Item P} {items : List (Item P)} {pattern : AliasPattern} {name : Name}
    (h : Renames schema entity explicit none [item] pattern name) (hitem : item ∈ items) :
    Renames schema entity explicit around items pattern name := by
  cases h with
  | inner hgroup hinner =>
    exact .inner (List.mem_singleton.mp hgroup ▸ hitem) hinner

theorem Item.Renames.cons {entity : Name} {explicit : List Name} {around : Option AliasPattern}
    {items : List (Item P)} {pattern : AliasPattern} {name : Name} (item : Item P)
    (h : Renames schema entity explicit around items pattern name) :
    Renames schema entity explicit around (item :: items) pattern name := by
  cases h with
  | here hmem halias he hgiven => exact .here (List.mem_cons_of_mem _ hmem) halias he hgiven
  | inner hgroup hinner => exact .inner (List.mem_cons_of_mem _ hgroup) hinner

section Entries

variable {all : List (Part P)}

theorem isWord_of_parts {newName : Option (Located P Name)} (hall : ∀ part ∈ all, part.IsProper)
    (h : newName.toList.map .name ⊆ all) {w : Located P Name} (hw : newName = some w) :
    Token.isWord w.val = true := by
  refine hall (.name w) (h (List.mem_map_of_mem ?_))
  rw [hw]
  exact List.mem_singleton.mpr rfl

-- By recursion on the syntax, as `entries` and `entriesAll` are.
mutual

theorem Item.isSound_entries (hschema : schema.HasWords) (hall : ∀ part ∈ all, part.IsProper)
    {entity : Name} {explicit : List Name} : ∀ item : Item P, item.parts ⊆ all →
      ∀ e ∈ entries schema entity explicit item,
        e.IsSound all (Renames schema entity explicit none [item])
  | .plain head, hparts, e, he => by
    obtain ⟨hname, hnew⟩ := List.cons_subset.mp hparts
    rw [entries, List.mem_singleton] at he
    subst he
    refine ⟨Output.isSound_ofAlias (hall _ hname) fun w hw => isWord_of_parts hall hnew hw, ?_⟩
    exact fun _ _ hbody => by cases hbody
  | .nested head items extent, hparts, e, he => by
    obtain ⟨hhead, hbody⟩ := List.append_subset.mp hparts
    obtain ⟨hname, hnew⟩ := List.cons_subset.mp hhead
    rw [entries, List.mem_singleton] at he
    subst he
    refine ⟨Output.isSound_ofAlias (hall _ hname) fun w hw => isWord_of_parts hall hnew hw, ?_⟩
    intro target body h
    obtain ⟨_, _, heq⟩ := Option.map_eq_some_iff.mp h
    cases heq
    exact (List.cons_subset.mp hbody).2
  | .idOnly property nullability newName, hparts, e, he => by
    obtain ⟨hproperty, hnew⟩ := List.cons_subset.mp hparts
    rw [entries, List.mem_singleton] at he
    subst he
    have hname : Token.isWord (idItemName schema entity property.val) = true :=
      isWord_idItemName hschema (hall _ hproperty)
    refine ⟨Output.isSound_ofAlias hname fun w hw => isWord_of_parts hall hnew hw, ?_⟩
    exact fun _ _ hbody => by cases hbody
  | .bundle name nullability, _, e, he => by
    rw [entries] at he
    obtain ⟨n, hn, rfl⟩ := List.mem_map.mp he
    exact ⟨.inl (isWord_of_mem_macroNames hschema hn), fun _ _ hbody => by cases hbody⟩
  | .flatten property lead items extent, hparts, e, he => by
    obtain ⟨hproperty, hmore⟩ := List.cons_subset.mp hparts
    obtain ⟨hlead, hbody⟩ := List.append_subset.mp hmore
    have hword : Token.isWord ((lead.map (·.val)).getD property.val) = true := by
      cases lead with
      | none => exact hall _ hproperty
      | some w => exact hall (.name w) (hlead List.mem_cons_self)
    rw [entries] at he
    split at he
    · -- a digit in front does not stay there, for the lead goes before it
      obtain ⟨inner, hinner, rfl⟩ := List.mem_map.mp he
      have hsound := Item.isSound_entriesAll hschema hall items (List.cons_subset.mp hbody).2
        (fun _ h => by cases h) inner (List.mem_of_mem_filter hinner)
      exact ⟨hsound.output.through hword, hsound.body⟩
    · cases he
  | .group pattern items extent, hparts, e, he => by
    obtain ⟨hpattern, hbody⟩ := List.cons_subset.mp hparts
    rw [entries] at he
    have hsound := Item.isSound_entriesAll hschema hall items (List.cons_subset.mp hbody).2
      (by rintro _ ⟨⟩; exact hall _ hpattern) e he
    refine ⟨hsound.output.mono fun p name h => ?_, hsound.body⟩
    exact .inner (List.mem_singleton.mpr rfl) h
  | .negative name, _, e, he => by cases he
  | .user item, _, e, he => by cases he

theorem Item.isSound_entriesAll (hschema : schema.HasWords) (hall : ∀ part ∈ all, part.IsProper)
    {entity : Name} {explicit : List Name} {pattern : Option AliasPattern} :
    ∀ items : List (Item P), partsAll items ⊆ all → (∀ p, pattern = some p → p.IsProper) →
      ∀ e ∈ entriesAll schema entity explicit pattern items,
        e.IsSound all (Renames schema entity explicit pattern items)
  | [], _, _, e, he => by cases he
  | item :: items, hparts, hpattern, e, he => by
    obtain ⟨hitem, hitems⟩ := List.append_subset.mp hparts
    rw [entriesAll] at he
    rcases List.mem_append.mp he with he | he
    · obtain ⟨inner, hinner, rfl⟩ := List.mem_map.mp he
      have hsound := Item.isSound_entries hschema hall item hitem inner hinner
      have houtput :
          inner.output.IsSound (Renames schema entity explicit pattern (item :: items)) :=
        hsound.output.mono fun p name h => h.of_mem List.mem_cons_self
      cases pattern with
      | none => exact ⟨houtput, hsound.body⟩
      | some pattern =>
        refine ⟨houtput.inGroup (hpattern pattern rfl) fun halias hgiven => ?_, hsound.body⟩
        exact .here List.mem_cons_self halias hinner hgiven
    · have hsound := Item.isSound_entriesAll hschema hall items hitems hpattern e he
      exact ⟨hsound.output.mono fun p name h => h.cons item, hsound.body⟩

end

theorem Item.isSound_bodyEntries (hschema : schema.HasWords) (hall : ∀ part ∈ all, part.IsProper)
    {entity : Name} {items : List (Item P)} (h : partsAll items ⊆ all) {e : Entry P}
    (he : e ∈ bodyEntries schema entity items) :
    e.IsSound all (BodyRenames schema entity items) :=
  isSound_entriesAll hschema hall items h (fun _ h => by cases h) e (List.mem_of_mem_filter he)

/-- The body that declares a type at any depth is a part of the body of the declaration. -/
theorem Dto.Declared.partsAll_subset {d : Dto} {items body : List (Item P)} {T : Outline}
    {properties : List Property} (hschema : schema.HasWords) (hall : ∀ part ∈ all, part.IsProper)
    (h : d.Declared schema items T body properties) (hitems : Item.partsAll items ⊆ all) :
    Item.partsAll body ⊆ all := by
  induction h with
  | top => exact hitems
  | inner _ hzip hbody ih =>
    have he := (List.of_mem_zip hzip).2
    exact (Item.isSound_bodyEntries hschema hall ih he).body _ _ hbody

theorem Item.parts_subset_partsAll {item : Item P} {items : List (Item P)} (h : item ∈ items) :
    item.parts ⊆ partsAll items := by
  induction items with
  | nil => cases h
  | cons first items ih =>
    rw [partsAll]
    rcases List.mem_cons.mp h with rfl | h
    · exact List.subset_append_left _ _
    · exact fun part hpart => List.mem_append_right _ (ih h hpart)

theorem Item.mem_entriesAll {entity : Name} {explicit : List Name} {pattern : Option AliasPattern}
    {item : Item P} {items : List (Item P)} (hitem : item ∈ items) {e : Entry P}
    (he : e ∈ entries schema entity explicit item) :
    e.inGroup pattern item.hasAlias ∈ entriesAll schema entity explicit pattern items := by
  induction items with
  | nil => cases hitem
  | cons first items ih =>
    rw [entriesAll]
    rcases List.mem_cons.mp hitem with rfl | hitem
    · exact List.mem_append_left _ (List.mem_map_of_mem he)
    · exact List.mem_append_right _ (ih hitem)

/-- What a pattern is given to rename is put out under its new name. -/
theorem Item.Renames.exists_entry {entity : Name} {explicit : List Name}
    {around : Option AliasPattern} {items : List (Item P)} {pattern : AliasPattern} {name : Name}
    (h : Renames schema entity explicit around items pattern name) :
    ∃ e ∈ entriesAll schema entity explicit around items,
      e.output = ⟨pattern.apply name, true⟩ := by
  induction h with
  | @here pattern items item e hitem halias he hgiven =>
    refine ⟨_, mem_entriesAll hitem he, ?_⟩
    simp [Entry.inGroup, Output.inGroup, halias, hgiven]
  | @inner around items body located extent pattern name hgroup _ ih =>
    obtain ⟨e, he, houtput⟩ := ih
    refine ⟨_, mem_entriesAll hgroup he, ?_⟩
    -- The group around it does not rename what has been renamed.
    cases around <;> simp [Entry.inGroup, Output.inGroup, houtput]

/-- No negative takes away what is no word. -/
theorem Item.mem_bodyEntries {entity : Name} {items : List (Item P)}
    (hall : ∀ part ∈ all, part.IsProper) (hitems : partsAll items ⊆ all) {e : Entry P}
    (he : e ∈ entriesAll schema entity (Selection.explicitNamesAll items) none items)
    (hword : Token.isWord e.output.name = false) : e ∈ bodyEntries schema entity items := by
  refine List.mem_filter.mpr ⟨he, decide_eq_true ?_⟩
  intro hnegative
  obtain ⟨w, hw, hname⟩ := List.mem_map.mp hnegative
  obtain ⟨item, hitem, hnegative⟩ := List.mem_filterMap.mp hw
  cases item with
  | negative w' =>
    cases hnegative
    have hpart : .name w ∈ partsAll items :=
      parts_subset_partsAll hitem (List.mem_singleton.mpr rfl)
    have hproper : Token.isWord w.val = true := hall _ (hitems hpart)
    rw [hname, hword] at hproper
    cases hproper
  | _ => cases hnegative

end Entries

/-! ### Sources -/

section Depths

variable {defaults : Defaults} {entity : Name} {shared : List (Located P Modifier)}
  {decl : Declaration P} {selections : List (Selection P)} {d : Dto} {all : List (Part P)}

/-- In a type at any depth, the names that are no words are those that the patterns of its body
leave with a digit in front. -/
theorem Dto.Arises.exists_body_words
    (hd : Dto.Arises schema defaults entity shared decl selections d) (hschema : schema.HasWords)
    (hall : ∀ part ∈ all, part.IsProper) (hdecl : decl.parts ⊆ all) {T : Outline}
    {properties : List Property} (hT : d.Holds T properties) :
    ∃ body, d.Declared schema decl.body.items T body properties ∧ ∀ name,
      name ∈ properties.map (·.info.name) ∧ Token.isWord name = false ↔
        ∃ pattern original, Item.BodyRenames schema T.entity body pattern original ∧
          pattern.LeavesDigit original name := by
  have hitems : Item.partsAll decl.body.items ⊆ all := fun part hpart =>
    hdecl (List.mem_cons_of_mem _ (List.mem_append_right _ (List.mem_cons_of_mem _ hpart)))
  obtain ⟨body, selected, hdeclared, htraces, hof⟩ := hd.declared hT
  have hbody := hdeclared.partsAll_subset hschema hall hitems
  have hpairs : List.Forall₂ (fun e p => p.info.name = e.output.name)
      (Item.bodyEntries schema T.entity body) properties := by
    refine (forall₂_of_common htraces (Property.forall₂_of_ofSelections hof)).imp ?_
    rintro e p ⟨s, hs, hp⟩
    exact (Property.comesFrom_of_traces hs hp).1
  -- The properties have the names of the entries of the body, in both directions.
  refine ⟨body, hdeclared, fun name => ⟨?_, ?_⟩⟩
  · rintro ⟨hname, hword⟩
    obtain ⟨p, hp, rfl⟩ := List.mem_map.mp hname
    obtain ⟨e, he, heq⟩ := exists_mem_of_forall₂ hpairs hp
    rcases (Item.isSound_bodyEntries hschema hall hbody he).output with hsound | ⟨_, hsound⟩
    · rw [← heq, hword] at hsound
      cases hsound
    · rw [heq]
      exact hsound
  · rintro ⟨pattern, original, hrenames, hleaves⟩
    obtain ⟨e, he, houtput⟩ := hrenames.exists_entry
    rw [hleaves.apply_eq] at houtput
    have hname : e.output.name = name := by rw [houtput]
    have hmem := Item.mem_bodyEntries hall hbody he (by rw [hname]; exact hleaves.not_isWord)
    obtain ⟨p, hp, heq⟩ := exists_mem_of_forall₂ hpairs.flip hmem
    exact ⟨List.mem_map.mpr ⟨p, hp, heq.trans hname⟩, hleaves.not_isWord⟩

theorem Dto.Arises.isWord_users
    (hd : Dto.Arises schema defaults entity shared decl selections d)
    (hall : ∀ part ∈ all, part.IsProper) (hdecl : decl.parts ⊆ all) {u : UserProperty}
    (hu : u ∈ d.users) : Token.isWord u.name = true := by
  obtain ⟨item, hitem, hof⟩ := exists_mem_of_forall₂ (UserProperty.forall₂_of_ofItems hd.users) hu
  rw [(UserProperty.ofItem_eq_ok hof).1]
  rw [Body.users_eq] at hitem
  obtain ⟨i, hi, huser⟩ := List.mem_filterMap.mp hitem
  refine hall (.name item.name) (hdecl ?_)
  refine List.mem_cons_of_mem _ (List.mem_append_right _ (List.mem_cons_of_mem _ ?_))
  refine Item.parts_subset_partsAll hi ?_
  cases i with
  | user other =>
    cases huser
    exact List.mem_singleton.mpr rfl
  | _ => cases huser

end Depths

/-- A word among tokens was read from a text. -/
theorem Part.isProper_of_isAmong {tokens : List Token} {part : Part TokenRange}
    (htokens : ∀ name, .word name ∈ tokens → Token.isWord name = true)
    (h : part.IsAmong tokens) : part.IsProper := by
  cases part with
  | name w => exact htokens _ (List.mem_of_getElem? h.2)
  | pattern p => exact h.2.imp (htokens _) id
  | _ => trivial

theorem Part.isProper_move {Q : Type} {part : Part P} (f : P → Q) (h : part.IsProper) :
    (part.move f).IsProper := by
  cases part <;> exact h

theorem Source.isProper_of_parse {text : String} {s : Source Span} (h : parse text = .ok s)
    {part : Part Span} (hpart : part ∈ s.parts) : part.IsProper := by
  obtain ⟨tokens, htokens, hparts⟩ := exists_tokens_of_parse h
  obtain ⟨found, hfound, rfl⟩ := hparts part hpart
  refine Part.isProper_move _ (Part.isProper_of_isAmong (fun name hname => ?_) hfound)
  obtain ⟨t, ht, hword⟩ := List.mem_map.mp hname
  exact Token.isWord_of_isIdentifier
    (Token.isIdentifier_of_tokenize htokens (List.mem_of_mem_filter ht) hword)

/-- **Which names in the output are words.** Take a schema whose attributes have words for names and
a source that is read and compiles. Then the user-defined properties have words for names. A type at
any depth is declared by a body, and the names of its properties are words, but for those that a
pattern `^text ->` of the body leaves with a digit in front. -/
theorem Source.compile_words {text : String} {s : Source Span} {defaults : Defaults}
    {types : List Dto} (hparse : parse text = .ok s) (hschema : schema.HasWords)
    (hcompile : s.compile schema defaults = .ok types) :
    List.Forall₂ (fun decl d =>
      (∀ u ∈ d.users, Token.isWord u.name = true) ∧
        ∀ T properties, d.Holds T properties →
          ∃ body, d.Declared schema decl.body.items T body properties ∧ ∀ name,
            name ∈ properties.map (·.info.name) ∧ Token.isWord name = false ↔
              ∃ pattern original, Item.BodyRenames schema T.entity body pattern original ∧
                pattern.LeavesDigit original name)
      s.declarations types := by
  have hall : ∀ part ∈ s.parts, part.IsProper := fun part hpart => isProper_of_parse hparse hpart
  have hparts : ∀ decl ∈ s.declarations, decl.parts ⊆ s.parts := fun decl hdecl part hpart =>
    List.mem_append_right _ (List.mem_flatMap.mpr ⟨decl, hdecl, hpart⟩)
  have harises := (Source.arises_of_compile hcompile).2
  refine ((List.forall₂_and_left _ _).mpr ⟨hparts, harises⟩).imp ?_
  rintro decl d ⟨hdecl, selections, hd⟩
  refine ⟨fun u hu => hd.isWord_users hall hdecl hu, fun T properties hT => ?_⟩
  exact hd.exists_body_words hschema hall hdecl hT

/-! ### An example

The lines of an address are numbered, and the view `Label` takes `line` off their names. -/

namespace Postal

def address : Entity where
  name := "Address"
  marker := .entity
  attributes := [.id "id" "Long", .scalar "line1" "String", .scalar "town" "String"]
  distinct := by decide

def registry : Registry where
  entities := [address]
  graph := some (.ofEntities [address])

theorem label_is_no_word :
    let text := "export Address Label \x7b id, as(^line -> ) \x7b line1 \x7d \x7d"
    Registry.finalize ⟨[address], {}, none⟩ = (.ok (), registry) ∧
      (SchemaStore.schema registry).HasWords ∧
      ∃ s d, Source.parse text = .ok s ∧ s.compile (SchemaStore.schema registry) {} = .ok [d] ∧
        d.properties.map (·.info.name) = ["id", "1"] ∧ Token.isWord "1" = false ∧
        ∃ (body : List (Item Span)) (pattern : AliasPattern) (original : Name),
          Item.BodyRenames (SchemaStore.schema registry) d.outline.entity body pattern original ∧
            pattern.LeavesDigit original "1" := by
  intro text
  have hrun : ((Source.parse text).toOption.bind fun s =>
      (s.compile (SchemaStore.schema registry) {}).toOption.map fun types =>
        types.map fun d => d.properties.map (·.info.name)) = some [["id", "1"]] := by decide +kernel
  obtain ⟨s, hs, hrun⟩ := Option.bind_eq_some_iff.mp hrun
  obtain ⟨types, htypes, hnames⟩ := Option.map_eq_some_iff.mp hrun
  have hparse := eq_ok_of_toOption hs
  have hcompile := eq_ok_of_toOption htypes
  obtain ⟨d, rfl⟩ : ∃ d, types = [d] := by
    have hlength := congrArg List.length hnames
    rw [List.length_map] at hlength
    exact List.length_eq_one_iff.mp hlength
  have hd : d.properties.map (·.info.name) = ["id", "1"] := (List.cons.inj hnames).1
  have hschema : (SchemaStore.schema registry).HasWords := Registry.hasWords_schema (by decide)
  have hwords := Source.compile_words hparse hschema hcompile
  obtain ⟨decl, _, _, htypes⟩ := exists_mem_of_forall₂ hwords (List.mem_singleton.mpr rfl)
  obtain ⟨body, _, hbody⟩ := htypes d.outline d.properties .top
  refine ⟨rfl, hschema, s, d, hparse, hcompile, hd, by decide, body, (hbody "1").mp ⟨?_, by decide⟩⟩
  rw [hd]
  decide

end Postal

end Projection
