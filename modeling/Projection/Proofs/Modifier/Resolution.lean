import Projection.Modifier.Traits
import Projection.Proofs.Success

/-!
# Which modifiers can stand together

The modifiers of a place are taken one by one. Only the last role and the last stance are kept, and
a new one is compared with these alone. That is enough: as long as no fault was found, what is kept
is the only role and the only stance among all words before (`ModifierSet.Sums`). So `collect`
succeeds exactly if the words are `Modifier.Compatible`, and its result depends on which words there
are, not on their order and number.

`Traits.resolve_cases` says the same of the words of a source and of a declaration together: when
they are accepted (`Modifier.Permitted`) and what they decide (`Traits.Follows`). Both conditions
ask only which words there are, and the second has one solution, so order and number never matter
(`Traits.resolve_by_words`).
-/

namespace Projection

variable {P : Type}

/-! ### Words -/

namespace Modifier

/-- The role that a word gives. -/
def role? : Modifier → Option Role
  | input => some .input
  | specification => some .specification
  | _ => none

/-- The stance that a word gives. -/
def stance? : Modifier → Option Stance
  | stance s => some s
  | _ => none

/-- Words that can stand at one place: no two of them give different roles or different stances. -/
structure Compatible (words : List Modifier) : Prop where
  role : ¬ (input ∈ words ∧ specification ∈ words)
  stance : ∀ s t, .stance s ∈ words → .stance t ∈ words → s = t

/-- Words that can stand in a source and in a declaration of it. -/
structure Permitted (shared own : List Modifier) : Prop where
  input : .input ∉ shared
  specification : .specification ∉ shared
  stance : ∀ s t, .stance s ∈ shared → .stance t ∈ shared → s = t
  own : Compatible own

variable {words : List Modifier}

theorem mem_filterMap_role? {r : Role} :
    r ∈ words.filterMap role? ↔
      (r = .input ∧ input ∈ words) ∨ (r = .specification ∧ specification ∈ words) := by
  rw [List.mem_filterMap]
  constructor
  · rintro ⟨word, hword, hrole⟩
    cases word with
    | input => exact .inl ⟨(Option.some.inj hrole).symm, hword⟩
    | specification => exact .inr ⟨(Option.some.inj hrole).symm, hword⟩
    | _ => cases hrole
  · rintro (⟨rfl, hword⟩ | ⟨rfl, hword⟩)
    · exact ⟨_, hword, rfl⟩
    · exact ⟨_, hword, rfl⟩

theorem mem_filterMap_stance? {s : Stance} :
    s ∈ words.filterMap stance? ↔ stance s ∈ words := by
  rw [List.mem_filterMap]
  constructor
  · rintro ⟨word, hword, hstance⟩
    cases word with
    | stance t =>
      obtain rfl : t = s := Option.some.inj hstance
      exact hword
    | _ => cases hstance
  · intro hword
    exact ⟨_, hword, rfl⟩

theorem compatible_iff :
    Compatible words ↔
      (∀ r ∈ words.filterMap role?, ∀ r' ∈ words.filterMap role?, r = r') ∧
        ∀ s ∈ words.filterMap stance?, ∀ t ∈ words.filterMap stance?, s = t := by
  simp only [mem_filterMap_role?, mem_filterMap_stance?]
  constructor
  · rintro ⟨hrole, hstance⟩
    refine ⟨?_, fun s hs t ht => hstance s t hs ht⟩
    rintro r (⟨rfl, hr⟩ | ⟨rfl, hr⟩) r' (⟨rfl, hr'⟩ | ⟨rfl, hr'⟩)
    · rfl
    · exact absurd ⟨hr, hr'⟩ hrole
    · exact absurd ⟨hr', hr⟩ hrole
    · rfl
  · rintro ⟨hrole, hstance⟩
    refine ⟨?_, fun s t hs ht => hstance s hs t ht⟩
    rintro ⟨hinput, hspecification⟩
    cases hrole _ (.inl ⟨rfl, hinput⟩) _ (.inr ⟨rfl, hspecification⟩)

theorem Compatible.of_append {more : List Modifier} (h : Compatible (words ++ more)) :
    Compatible words where
  role := fun ⟨hinput, hspecification⟩ =>
    h.role ⟨List.mem_append_left _ hinput, List.mem_append_left _ hspecification⟩
  stance := fun s t hs ht =>
    h.stance s t (List.mem_append_left _ hs) (List.mem_append_left _ ht)

end Modifier

/-! ### One place -/

/-- The value is the only one in the list, and there is none if the list has none. -/
def Sole {α : Type} (value : Option α) (named : List α) : Prop :=
  ∀ a, a ∈ named ↔ value = some a

namespace Sole

variable {α : Type} {f : Modifier → Option α} {value : Option α} {named : List α}
  {words : List Modifier} {word : Modifier} {a b : α}

theorem eq (h : Sole value named) (ha : a ∈ named) (hb : b ∈ named) : a = b :=
  Option.some.inj (((h a).mp ha).symm.trans ((h b).mp hb))

/-- A word that gives nothing follows. -/
theorem concat_none (h : Sole value (words.filterMap f)) (hword : f word = none) :
    Sole value ((words ++ [word]).filterMap f) := by
  rw [List.filterMap_append, List.filterMap_cons_none hword, List.filterMap_nil, List.append_nil]
  exact h

/-- A word follows that agrees with those before. -/
theorem concat_some (h : Sole value (words.filterMap f)) (hword : f word = some a)
    (hsame : ∀ b, value = some b → b = a) : Sole (some a) ((words ++ [word]).filterMap f) := by
  intro b
  rw [List.filterMap_append, List.filterMap_cons_some hword, List.filterMap_nil, List.mem_append,
    List.mem_singleton, Option.some_inj]
  constructor
  · rintro (hb | rfl)
    · exact (hsame b ((h b).mp hb)).symm
    · rfl
  · rintro rfl
    exact .inr rfl

/-- A word follows that does not agree. -/
theorem clash (h : Sole value (words.filterMap f)) (hword : f word = some a)
    (hb : value = some b) (hne : b ≠ a) :
    ¬ ∀ x ∈ (words ++ [word]).filterMap f, ∀ y ∈ (words ++ [word]).filterMap f, x = y := by
  intro hequal
  rw [List.filterMap_append, List.filterMap_cons_some hword, List.filterMap_nil] at hequal
  exact hne (hequal b (List.mem_append_left _ ((h b).mpr hb)) a List.mem_concat_self)

end Sole

namespace ModifierSet

open Modifier (Compatible compatible_iff role? stance?)

/-- The set is what the words come to: its role and its stance are the only ones they give. -/
structure Sums (set : ModifierSet P) (words : List Modifier) : Prop where
  role : Sole (set.role.map (·.val)) (words.filterMap role?)
  stance : Sole (set.stance.map (·.val)) (words.filterMap stance?)
  deleted : .deleted ∈ words ↔ set.deleted = true

theorem sums_nil : ({} : ModifierSet P).Sums [] where
  role := by simp [Sole]
  stance := by simp [Sole]
  deleted := by simp

/-- What becomes of a set with more words: they are all summed up, or two of them clash. -/
def Extends (words : List Modifier) (result : Except (Fault P) (ModifierSet P)) : Prop :=
  (∃ set, result = .ok set ∧ set.Sums words) ∨
    (∃ fault, result = .error fault ∧ fault.code = .conflictingModifiers) ∧ ¬ Compatible words

namespace Sums

variable {set : ModifierSet P} {words : List Modifier}

theorem compatible (h : set.Sums words) : Compatible words :=
  compatible_iff.mpr ⟨fun _ hr _ hr' => h.role.eq hr hr', fun _ hs _ ht => h.stance.eq hs ht⟩

theorem addRole (h : set.Sums words) {word : Modifier} {role : Role}
    (hword : word.role? = some role) (pos : P) :
    Extends (words ++ [word]) (set.addRole role pos) := by
  have hstance : word.stance? = none := by
    cases word with
    | stance s => cases hword
    | _ => rfl
  have hdeleted : .deleted ≠ word := by
    rintro rfl
    cases hword
  have hsums (hsame : ∀ r, set.role.map (·.val) = some r → r = role) :
      ({ set with role := some ⟨role, pos⟩ } : ModifierSet P).Sums (words ++ [word]) :=
    ⟨h.role.concat_some hword hsame, h.stance.concat_none hstance,
      by simpa [hdeleted] using h.deleted⟩
  unfold ModifierSet.addRole
  split
  · rename_i earlier hearlier
    have hvalue : set.role.map (·.val) = some earlier.val := congrArg (Option.map (·.val)) hearlier
    split
    · rename_i heq
      refine .inl ⟨_, rfl, hsums ?_⟩
      intro r hr
      exact (Option.some.inj (hr.symm.trans hvalue)).trans heq
    · rename_i hne
      refine .inr ⟨⟨_, rfl, rfl⟩, ?_⟩
      intro hcompatible
      exact h.role.clash hword hvalue hne (compatible_iff.mp hcompatible).1
  · rename_i hnone
    refine .inl ⟨_, rfl, hsums ?_⟩
    intro r hr
    rw [hnone] at hr
    cases hr

theorem addStance (h : set.Sums words) (s : Stance) (pos : P) :
    Extends (words ++ [Modifier.stance s]) (set.addStance s pos) := by
  have hsums (hsame : ∀ t, set.stance.map (·.val) = some t → t = s) :
      ({ set with stance := some ⟨s, pos⟩ } : ModifierSet P).Sums (words ++ [Modifier.stance s]) :=
    ⟨h.role.concat_none rfl, h.stance.concat_some rfl hsame, by simpa using h.deleted⟩
  unfold ModifierSet.addStance
  split
  · rename_i earlier hearlier
    have hvalue : set.stance.map (·.val) = some earlier.val :=
      congrArg (Option.map (·.val)) hearlier
    split
    · rename_i heq
      refine .inl ⟨_, rfl, hsums ?_⟩
      intro t ht
      exact (Option.some.inj (ht.symm.trans hvalue)).trans heq
    · rename_i hne
      refine .inr ⟨⟨_, rfl, rfl⟩, ?_⟩
      intro hcompatible
      exact h.stance.clash rfl hvalue hne (compatible_iff.mp hcompatible).2
  · rename_i hnone
    refine .inl ⟨_, rfl, hsums ?_⟩
    intro t ht
    rw [hnone] at ht
    cases ht

/-- One more word. -/
theorem add (h : set.Sums words) (m : Located P Modifier) :
    Extends (words ++ [m.val]) (set.add m) := by
  obtain ⟨word, pos⟩ := m
  cases word with
  | input => exact h.addRole rfl pos
  | specification => exact h.addRole rfl pos
  | stance s => exact h.addStance s pos
  | deleted => exact .inl ⟨_, rfl, h.role.concat_none rfl, h.stance.concat_none rfl, by simp⟩

/-- All words that follow. -/
theorem foldlM_add (h : set.Sums words) (ms : List (Located P Modifier)) :
    Extends (words ++ ms.map (·.val)) (ms.foldlM ModifierSet.add set) := by
  -- By induction on the words to come. What the words before add up to carries it, and once two of
  -- them clash, no further word can mend that.
  induction ms generalizing set words with
  | nil => exact .inl ⟨set, rfl, by simpa using h⟩
  | cons m ms ih =>
    have hwords : words ++ (m :: ms).map (·.val) = words ++ [m.val] ++ ms.map (·.val) := by simp
    rw [List.foldlM_cons, hwords]
    rcases h.add m with ⟨next, hnext, hsums⟩ | ⟨⟨fault, hfault, hcode⟩, hnot⟩
    · rw [hnext]
      exact ih hsums
    · rw [hfault]
      exact .inr ⟨⟨fault, rfl, hcode⟩, fun hcompatible => hnot hcompatible.of_append⟩

end Sums

/-- **The words of one place are accepted exactly if they are compatible**, and give what they come
to, in any order. -/
theorem extends_collect (ms : List (Located P Modifier)) :
    Extends (ms.map (·.val)) (collect ms) :=
  sums_nil.foldlM_add ms

end ModifierSet

/-! ### A source and a declaration -/

namespace Traits

open Modifier (Permitted)

/-- What the words of a source and of a declaration decide. -/
structure Follows (traits : Traits) (shared own : List Modifier) (default : Stance) : Prop where
  input : traits.role = .input ↔ .input ∈ own
  specification : traits.role = .specification ↔ .specification ∈ own
  ownStance : ∀ s, .stance s ∈ own → traits.stance = s
  sharedStance : (∀ s, .stance s ∉ own) → ∀ s, .stance s ∈ shared → traits.stance = s
  defaultStance : (∀ s, .stance s ∉ own) → (∀ s, .stance s ∉ shared) → traits.stance = default
  deleted : traits.includeDeleted = true ↔ .deleted ∈ shared ∨ .deleted ∈ own

theorem isInput_iff {traits : Traits} : traits.isInput = true ↔ traits.role = .input := by
  simp [isInput]

variable {shared own : ModifierSet P} {sharedWords ownWords : List Modifier}

/-- A stance among the words is the one that is kept. -/
theorem stance_mem_iff (h : own.Sums ownWords) (s : Stance) :
    .stance s ∈ ownWords ↔ own.stance.map (·.val) = some s := by
  rw [← Modifier.mem_filterMap_stance?]
  exact h.stance s

theorem stance_eq_none (h : own.Sums ownWords) (hnone : ∀ s, .stance s ∉ ownWords) :
    own.stance = none := by
  cases hstance : own.stance with
  | none => rfl
  | some t =>
    exact absurd ((stance_mem_iff h t.val).mpr (congrArg (Option.map (·.val)) hstance)) (hnone _)

/-- What is kept of the words decides. -/
theorem follows_of_sums (hshared : shared.Sums sharedWords) (hown : own.Sums ownWords)
    (default : Stance) :
    Follows {
      role := (own.role.map (·.val)).getD .view
      stance := ((own.stance <|> shared.stance).map (·.val)).getD default
      includeDeleted := own.deleted || shared.deleted } sharedWords ownWords default := by
  have hrole (r : Role) (hr : r ≠ .view) :
      (own.role.map (·.val)).getD .view = r ↔ r ∈ ownWords.filterMap Modifier.role? := by
    rw [hown.role r]
    cases own.role.map (·.val) with
    | none => simp [hr.symm]
    | some r' => simp
  refine ⟨?_, ?_, ?_, ?_, ?_, ?_⟩
  · rw [hrole _ Role.noConfusion, Modifier.mem_filterMap_role?]
    simp
  · rw [hrole _ Role.noConfusion, Modifier.mem_filterMap_role?]
    simp
  · intro s hs
    obtain ⟨t, ht, rfl⟩ := Option.map_eq_some_iff.mp ((stance_mem_iff hown s).mp hs)
    rw [ht]
    rfl
  · intro hnone s hs
    obtain ⟨t, ht, rfl⟩ := Option.map_eq_some_iff.mp ((stance_mem_iff hshared s).mp hs)
    rw [stance_eq_none hown hnone, ht]
    rfl
  · intro hnone hnoneShared
    rw [stance_eq_none hown hnone, stance_eq_none hshared hnoneShared]
    rfl
  · rw [hshared.deleted, hown.deleted, Bool.or_eq_true, or_comm]

/-- **Modifiers are accepted exactly if they are permitted**, and otherwise refused as
conflicting. -/
theorem resolve_cases (source declaration : List (Located P Modifier)) (default : Stance) :
    (Permitted (source.map (·.val)) (declaration.map (·.val)) ∧
        ∃ traits, resolve source declaration default = .ok traits ∧
          traits.Follows (source.map (·.val)) (declaration.map (·.val)) default) ∨
      ¬ Permitted (source.map (·.val)) (declaration.map (·.val)) ∧
        ∃ fault, resolve source declaration default = .error fault ∧
          fault.code = .conflictingModifiers := by
  rcases ModifierSet.extends_collect source with
    ⟨shared, hcollect, hshared⟩ | ⟨⟨fault, hfault, hcode⟩, hnot⟩
  · cases hrole : shared.role with
    | some role =>
      -- a role is no default, whatever the declaration says
      have hresolve : resolve source declaration default = .error (.roleAsDefault role) := by
        simp only [resolve, hcollect, bind, Except.bind, hrole]
      have hmem : role.val ∈ (source.map (·.val)).filterMap Modifier.role? :=
        (hshared.role _).mpr (congrArg (Option.map (·.val)) hrole)
      refine .inr ⟨?_, _, hresolve, rfl⟩
      intro hpermitted
      rcases Modifier.mem_filterMap_role?.mp hmem with ⟨_, hinput⟩ | ⟨_, hspecification⟩
      · exact hpermitted.input hinput
      · exact hpermitted.specification hspecification
    | none =>
      have hnone (r : Role) : r ∉ (source.map (·.val)).filterMap Modifier.role? := by
        rw [hshared.role r, hrole]
        simp
      rcases ModifierSet.extends_collect declaration with
        ⟨own, hcollectOwn, hown⟩ | ⟨⟨fault, hfault, hcode⟩, hnot⟩
      · refine .inl ⟨⟨?_, ?_, hshared.compatible.stance, hown.compatible⟩, _, ?_,
          follows_of_sums hshared hown default⟩
        · exact fun hinput => hnone _ (Modifier.mem_filterMap_role?.mpr (.inl ⟨rfl, hinput⟩))
        · exact fun hspecification =>
            hnone _ (Modifier.mem_filterMap_role?.mpr (.inr ⟨rfl, hspecification⟩))
        · simp only [resolve, hcollect, hcollectOwn, bind, Except.bind, hrole, pure, Except.pure]
      · refine .inr ⟨fun hpermitted => hnot hpermitted.own, fault, ?_, hcode⟩
        simp only [resolve, hcollect, hfault, bind, Except.bind, hrole]
  · refine .inr ⟨fun hpermitted => hnot ⟨?_, hpermitted.stance⟩, fault, ?_, hcode⟩
    · exact fun hroles => hpermitted.input hroles.1
    · simp only [resolve, hfault, bind, Except.bind]

end Traits

/-! ### Order and repetition -/

section Words

variable {shared shared' own own' : List Modifier}

/-- Only which words there are decides whether they can stand together. -/
theorem Modifier.Permitted.of_mem_iff (h : Permitted shared own)
    (hshared : ∀ word, word ∈ shared' ↔ word ∈ shared) (hown : ∀ word, word ∈ own' ↔ word ∈ own) :
    Permitted shared' own' where
  input := fun hinput => h.input ((hshared _).mp hinput)
  specification := fun hspecification => h.specification ((hshared _).mp hspecification)
  stance := fun s t hs ht => h.stance s t ((hshared _).mp hs) ((hshared _).mp ht)
  own := {
    role := fun ⟨hinput, hspecification⟩ =>
      h.own.role ⟨(hown _).mp hinput, (hown _).mp hspecification⟩
    stance := fun s t hs ht => h.own.stance s t ((hown _).mp hs) ((hown _).mp ht) }

namespace Traits

open Modifier (Permitted)

variable {traits traits' : Traits} {default : Stance}

/-- Only which words there are decides what follows from them. -/
theorem Follows.of_mem_iff (h : traits.Follows shared own default)
    (hshared : ∀ word, word ∈ shared' ↔ word ∈ shared) (hown : ∀ word, word ∈ own' ↔ word ∈ own) :
    traits.Follows shared' own' default := by
  obtain ⟨hinput, hspecification, hownStance, hsharedStance, hdefault, hdeleted⟩ := h
  simp only [← hshared, ← hown] at hinput hspecification hownStance hsharedStance hdefault hdeleted
  exact ⟨hinput, hspecification, hownStance, hsharedStance, hdefault, hdeleted⟩

/-- Words decide everything. -/
theorem Follows.unique (h : traits.Follows shared own default)
    (h' : traits'.Follows shared own default) : traits = traits' := by
  have hrole : traits.role = traits'.role := by
    have hinput := h.input.trans h'.input.symm
    have hspecification := h.specification.trans h'.specification.symm
    cases hr : traits.role <;> cases hr' : traits'.role <;> simp_all
  have hstance : traits.stance = traits'.stance := by
    -- A stance of the declaration goes before one of the source, and that before the default.
    by_cases hown : ∃ s, .stance s ∈ own
    · obtain ⟨s, hs⟩ := hown
      rw [h.ownStance s hs, h'.ownStance s hs]
    · rw [not_exists] at hown
      by_cases hshared : ∃ s, .stance s ∈ shared
      · obtain ⟨s, hs⟩ := hshared
        rw [h.sharedStance hown s hs, h'.sharedStance hown s hs]
      · rw [not_exists] at hshared
        rw [h.defaultStance hown hshared, h'.defaultStance hown hshared]
  have hdeleted : traits.includeDeleted = traits'.includeDeleted :=
    Bool.eq_iff_iff.mpr (h.deleted.trans h'.deleted.symm)
  cases traits
  cases traits'
  cases hrole
  cases hstance
  cases hdeleted
  rfl

theorem resolve_eq_ok_iff {source declaration : List (Located P Modifier)} :
    resolve source declaration default = .ok traits ↔
      Permitted (source.map (·.val)) (declaration.map (·.val)) ∧
        traits.Follows (source.map (·.val)) (declaration.map (·.val)) default := by
  rcases resolve_cases source declaration default with
    ⟨hpermitted, found, hfound, hfollows⟩ | ⟨hnot, fault, hfault, _⟩
  · rw [hfound, Except.ok.injEq]
    constructor
    · rintro rfl
      exact ⟨hpermitted, hfollows⟩
    · rintro ⟨_, hfollows'⟩
      exact hfollows.unique hfollows'
  · rw [hfault]
    exact ⟨fun h => (nomatch h), fun h => absurd h.1 hnot⟩

/-- Lists with the same words are accepted alike, and decide the same. -/
theorem toOption_resolve_eq {source source' declaration declaration' : List (Located P Modifier)}
    (hsource : ∀ word, word ∈ source'.map (·.val) ↔ word ∈ source.map (·.val))
    (hdeclaration : ∀ word, word ∈ declaration'.map (·.val) ↔ word ∈ declaration.map (·.val))
    (default : Stance) :
    (resolve source' declaration' default).toOption =
      (resolve source declaration default).toOption := by
  have hok (x : Except (Fault P) Traits) (traits : Traits) :
      x.toOption = some traits ↔ x = .ok traits := ⟨eq_ok_of_toOption, fun h => h ▸ rfl⟩
  refine Option.ext fun traits => ?_
  rw [hok, hok, resolve_eq_ok_iff, resolve_eq_ok_iff]
  constructor
  · rintro ⟨hpermitted, hfollows⟩
    exact ⟨hpermitted.of_mem_iff (fun w => (hsource w).symm) fun w => (hdeclaration w).symm,
      hfollows.of_mem_iff (fun w => (hsource w).symm) fun w => (hdeclaration w).symm⟩
  · rintro ⟨hpermitted, hfollows⟩
    exact ⟨hpermitted.of_mem_iff hsource hdeclaration, hfollows.of_mem_iff hsource hdeclaration⟩

/-- **Modifiers decide by which words there are.** They are accepted exactly if the source gives no
role and at most one stance, and the declaration at most one role and at most one stance; otherwise
they are refused with `E305`. The role is the one of the declaration, or else a view; the stance is
the one of the declaration, or else the one of the source, or else the default; and the
logically-deleted marker may be selected if one of the two says so. So lists with the same words, in
any order and number, are accepted alike and decide the same. -/
theorem resolve_by_words (source declaration : List (Located P Modifier)) (default : Stance) :
    ((∃ traits, resolve source declaration default = .ok traits) ↔
      Permitted (source.map (·.val)) (declaration.map (·.val))) ∧
    (∀ fault, resolve source declaration default = .error fault → fault.code.text = "E305") ∧
    (∀ traits, resolve source declaration default = .ok traits ↔
      Permitted (source.map (·.val)) (declaration.map (·.val)) ∧
        traits.Follows (source.map (·.val)) (declaration.map (·.val)) default) ∧
    ∀ source' declaration' : List (Located P Modifier),
      (∀ word, word ∈ source'.map (·.val) ↔ word ∈ source.map (·.val)) →
      (∀ word, word ∈ declaration'.map (·.val) ↔ word ∈ declaration.map (·.val)) →
      (resolve source' declaration' default).toOption =
        (resolve source declaration default).toOption := by
  refine ⟨?_, ?_, fun traits => resolve_eq_ok_iff, fun source' declaration' hsource hdeclaration =>
    toOption_resolve_eq hsource hdeclaration default⟩
  · rcases resolve_cases source declaration default with
      ⟨hpermitted, traits, htraits, _⟩ | ⟨hnot, _, _, _⟩
    · exact ⟨fun _ => hpermitted, fun _ => ⟨traits, htraits⟩⟩
    · exact ⟨fun ⟨traits, htraits⟩ => (resolve_eq_ok_iff.mp htraits).1, fun h => absurd h hnot⟩
  · intro fault hfault
    rcases resolve_cases source declaration default with
      ⟨_, traits, htraits, _⟩ | ⟨_, other, hother, hcode⟩
    · rw [htraits] at hfault
      cases hfault
    · rw [hother] at hfault
      cases hfault
      rw [hcode]
      rfl

/-- The words `default deleted fixed` with `input fuzzy input`, and the same in another order. With
`specification` they are refused. -/
theorem input_in_any_order :
    resolve [⟨.deleted, 0⟩, ⟨.stance .fixed, 1⟩]
        [⟨.input, 2⟩, ⟨.stance .fuzzy, 3⟩, ⟨.input, 4⟩] .static = .ok ⟨.input, .fuzzy, true⟩ ∧
      (resolve [⟨.stance .fixed, 0⟩, ⟨.deleted, 1⟩, ⟨.stance .fixed, 2⟩]
        [⟨.stance .fuzzy, 3⟩, ⟨.input, 4⟩] .static).toOption = some ⟨.input, .fuzzy, true⟩ ∧
      ∃ fault, resolve [⟨.deleted, 0⟩] [⟨.input, 1⟩, ⟨.specification, 2⟩] .static = .error fault ∧
        fault.code.text = "E305" := by
  refine ⟨rfl, ?_, _, rfl, ?_⟩
  · refine ((resolve_by_words [⟨.deleted, 0⟩, ⟨.stance .fixed, 1⟩]
      [⟨.input, 2⟩, ⟨.stance .fuzzy, 3⟩, ⟨.input, 4⟩] .static).2.2.2 _ _ ?_ ?_).trans rfl
    · simp [or_comm]
    · simp [or_comm]
  · exact (resolve_by_words [⟨.deleted, 0⟩] [⟨.input, 1⟩, ⟨.specification, 2⟩] .static).2.1 _ rfl

end Traits

end Words

end Projection
