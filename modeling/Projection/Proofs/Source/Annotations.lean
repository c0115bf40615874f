import Projection.Proofs.Source.Slots

/-!
# Other values in annotations

The values in annotations can be replaced by others. This is shown for one argument
(`Parser.refills_argument`), for the arguments of an annotation, for an annotation
(`Parser.refills_tag`) and for several (`Parser.refills_tags`). An argument behind another and an
annotation behind another are cases of `Parser.Joins`.
-/

namespace Projection

namespace Parser

variable {n m start : Nat} {c c' : Cursor} {taken rest : List Token}

/-! ### Arguments -/

/-- A value ends before a sign of equality. -/
theorem value_before_equals {t : Token} {ahead : List Token} {i : Nat}
    {v : Located TokenRange Value}
    (h : value n ⟨t :: .symbol .equals :: ahead, i⟩ = .ok (v, c')) :
    c'.ahead = .symbol .equals :: ahead := by
  cases n with
  | zero => cases h
  | succ n =>
    cases t with
    | word name =>
      by_cases htrue : name = "true"
      · subst htrue
        cases h
        rfl
      · by_cases hfalse : name = "false"
        · subst hfalse
          cases h
          rfl
        · -- any other word is the name of a constant, and ends before the equals sign
          have hliteral : literal? false (.word name) = none := by
            unfold literal?
            split <;> simp_all
          have hsigned :
              signed literal? (⟨.word name :: .symbol .equals :: ahead, i⟩ : Cursor) =
              .ok (.inr false, ⟨.word name :: .symbol .equals :: ahead, i⟩) := by
            rw [signed, bind_eq_of_eq_ok (eat_of_not_head (by simp)), bind_eq_of_eq_ok (peek_eq _)]
            simp only [List.head?_cons, Option.bind_some, Option.isSome_none, hliteral]
            rfl
          rw [value, bind_eq_of_eq_ok (eat_of_not_head (by simp))] at h
          dsimp only at h
          rw [bind_eq_of_eq_ok hsigned] at h
          cases h
          rfl
    | symbol s =>
      cases s with
      | leftBracket => cases n <;> cases h
      | _ => cases h
    | integer value =>
      cases h
      rfl
    | decimal value =>
      cases h
      rfl
    | quoted value =>
      cases h
      rfl
    | _ => cases h

/-- An argument with a name before it, or without one. -/
theorem argument_cases {a : Located TokenRange Name × Located TokenRange Value}
    (h : argument c = .ok (a, c')) :
    (∃ name more, c.ahead = .word name :: .symbol .equals :: more ∧ a.1.val = name ∧
      phrase .argument ⟨more, c.index + 2⟩ = .ok (a.2.map .argument, c')) ∨
    (a.1.val = "value" ∧ phrase .argument c = .ok (a.2.map .argument, c')) := by
  have hpositional : ∀ {a}, argument.positional c = .ok (a, c') →
      a.1.val = "value" ∧ phrase .argument c = .ok (a.2.map .argument, c') := by
    intro a h
    obtain ⟨⟨v, _⟩, hv, hpure⟩ := bind_eq_ok.mp h
    cases hpure
    exact ⟨rfl, phrase_argument.mpr ⟨v, hv, rfl⟩⟩
  by_cases hsecond : c.ahead.tail.head? = some (.symbol .equals)
  · have hnamed : argument c =
        (word? >>= fun found => found.elim argument.positional namedArgument) c := by
      change (if c.ahead.tail.head? == some (.symbol .equals) then _ else _ : Parser _) c = _
      rw [if_pos (by simpa using hsecond)]
      refine congrArg (fun k => (word? >>= k) c) (funext fun found => ?_)
      cases found <;> rfl
    rw [hnamed] at h
    obtain ⟨more, hmore⟩ := List.head?_eq_some_iff.mp hsecond
    by_cases hword : ∃ name, c.ahead.head? = some (.word name)
    · obtain ⟨name, hname⟩ := hword
      obtain ⟨rest, hc⟩ := List.head?_eq_some_iff.mp hname
      obtain rfl : rest = .symbol .equals :: more := by rw [← hmore, hc, List.tail_cons]
      rw [bind_eq_of_eq_ok (word?_of_head hc)] at h
      obtain ⟨⟨v, _⟩, hv, hpure⟩ := bind_eq_ok.mp h
      cases hpure
      exact .inl ⟨name, more, hc, rfl, phrase_argument.mpr ⟨v, hv, rfl⟩⟩
    · rw [bind_eq_of_eq_ok (word?_of_not_head (not_exists.mp hword))] at h
      exact .inr (hpositional h)
  · have hplain : argument c = argument.positional c := by
      change (if c.ahead.tail.head? == some (.symbol .equals) then _ else _ : Parser _) c = _
      rw [if_neg (by simpa using hsecond)]
    rw [hplain] at h
    exact .inr (hpositional h)

theorem Follows.ne_nil (h : Follows .argument rest) : rest ≠ [] := by
  rintro rfl
  rcases h with h | h <;> cases h

/-- What is known of the value behind a phrase. -/
theorem Reads.value_of_phrase {v : Phrase}
    (h : Reads (phrase .argument) taken rest (·.val = v)) :
    Reads (value (taken ++ rest).length) taken rest (Phrase.argument ·.val = v) := by
  intro index
  obtain ⟨w, hw, rfl⟩ := h index
  obtain ⟨x, hx, rfl⟩ := phrase_argument.mp hw
  exact ⟨x, hx, rfl⟩

theorem reads_named_argument {v : Phrase} (name : Name)
    (h : Reads (phrase .argument) taken rest (·.val = v)) :
    Reads argument (.word name :: .symbol .equals :: taken) rest fun a =>
      [.argument a.2.val] = [v] ∧ a.1.val = name := by
  refine Reads.look reads_peekSecond ?_
  rintro _ rfl
  rw [if_pos (by simp)]
  refine Reads.take reads_word? ?_
  rintro _ ⟨r, rfl⟩
  refine Reads.take reads_advance ?_
  intro _ _
  refine Reads.look reads_remaining ?_
  rintro _ rfl
  exact Reads.last h.value_of_phrase fun x hx => reads_pure ⟨congrArg (List.cons · []) hx, rfl⟩

theorem reads_plain_argument {v : Phrase} (h : Reads (phrase .argument) taken rest (·.val = v))
    (hrest : Follows .argument rest) :
    Reads argument taken rest fun a => [.argument a.2.val] = [v] ∧ a.1.val = "value" := by
  have hsecond : (taken ++ rest).tail.head? ≠ some (.symbol .equals) := by
    intro hequals
    obtain ⟨x, hx, _⟩ := h.value_of_phrase 0
    have hne : taken ≠ [] := Takes.of_ahead (progresses_value _) hx rfl
    obtain ⟨t, more, rfl⟩ := List.exists_cons_of_ne_nil hne
    obtain ⟨ahead, hahead⟩ := List.head?_eq_some_iff.mp hequals
    rw [List.cons_append, List.tail_cons] at hahead
    rw [List.cons_append, hahead] at hx
    have hleft : rest = .symbol .equals :: ahead := value_before_equals hx
    rw [hleft] at hrest
    rcases hrest with hrest | hrest <;> cases hrest
  refine Reads.look reads_peekSecond ?_
  rintro _ rfl
  rw [if_neg (by simpa using hsecond)]
  refine Reads.look reads_remaining ?_
  rintro _ rfl
  exact Reads.last h.value_of_phrase fun x hx => reads_pure ⟨congrArg (List.cons · []) hx, rfl⟩

theorem refills_argument {a : Located TokenRange Name × Located TokenRange Value}
    (h : argument c = .ok (a, c')) (hahead : c.ahead = taken ++ c'.ahead)
    (hfollows : Follows .argument c'.ahead) :
    Refills (fun _ => argument) (fun a => [a.2.map .argument]) (fun a => a.1.val) c.index taken
      c'.ahead a := by
  refine refills_single rfl ?_
  rcases argument_cases h with ⟨name, more, hmore, hname, hphrase⟩ | ⟨hname, hphrase⟩
  · obtain ⟨old, rfl, _, hold⟩ := phraseAt_of_phrase hphrase hfollows.ne_nil
    obtain rfl : taken = [.word name, .symbol .equals] ++ old :=
      List.append_cancel_right (hahead.symm.trans hmore)
    refine .prepend (refillsAt_phrase hold hfollows) rfl fun v mid' hmid _ _ => ?_
    rw [hname]
    exact reads_named_argument name (hmid _ (Nat.le_refl _))
  · obtain ⟨old, hold', _, hold⟩ := phraseAt_of_phrase hphrase hfollows.ne_nil
    obtain rfl : taken = old := List.append_cancel_right (hahead.symm.trans hold')
    refine .mono (refillsAt_phrase hold hfollows) fun v taken' htaken _ _ => ?_
    rw [hname]
    exact reads_plain_argument (htaken _ (Nat.le_refl _)) hfollows

end Parser

/-- The values of arguments. -/
def TagItem.argumentPhrases {P : Type} (arguments : List (Located P Name × Located P Value)) :
    List (Located P Phrase) :=
  arguments.map fun a => a.2.map .argument

/-- The names of arguments. -/
def TagItem.argumentNames {P : Type} (arguments : List (Located P Name × Located P Value)) :
    List Name :=
  arguments.map fun a => a.1.val

open TagItem (argumentPhrases argumentNames)

namespace Parser

variable {n m start : Nat} {c c' : Cursor} {taken rest : List Token}

theorem kept_argument {a b : Located TokenRange Name × Located TokenRange Value}
    (h : a.map (Located.move nowhere) (Located.move nowhere) =
      b.map (Located.move nowhere) (Located.move nowhere)) :
    Kept (fun a => [a.2.map .argument]) (fun a => a.1.val) a b := by
  have hvalue := (Located.val_eq_of_move (congrArg Prod.snd h)).symm
  exact ⟨congrArg (fun value => [Phrase.argument value]) hvalue,
    (Located.val_eq_of_move (congrArg Prod.fst h)).symm⟩

theorem kept_arguments {as bs : List (Located TokenRange Name × Located TokenRange Value)}
    (h : as.map (Prod.map (Located.move nowhere) (Located.move nowhere)) =
      bs.map (Prod.map (Located.move nowhere) (Located.move nowhere))) :
    Kept argumentPhrases argumentNames as bs := by
  have hnames := congrArg (List.map fun a : Located Unit Name × Located Unit Value => a.1.val) h
  have hvalues := congrArg
    (List.map fun a : Located Unit Name × Located Unit Value => Phrase.argument a.2.val) h
  simp only [List.map_map, Function.comp_def, Prod.map, Located.move] at hnames hvalues
  refine ⟨?_, hnames.symm⟩
  simp only [argumentPhrases, List.map_map, Function.comp_def, Located.map]
  exact hvalues.symm

/-- An argument with a comma behind it. -/
def argumentComma : Parser (Located TokenRange Name × Located TokenRange Value) := do
  let a ← argument
  let _ ← expect .comma
  return a

theorem reads_argumentComma {Q : Located TokenRange Name × Located TokenRange Value → Prop}
    (h : Reads argument taken (.symbol .comma :: rest) Q) :
    Reads argumentComma (taken ++ [.symbol .comma]) rest Q :=
  Reads.bind h fun _ ha => Reads.last reads_expect fun _ _ => reads_pure ha

theorem argumentComma_eq_ok {a : Located TokenRange Name × Located TokenRange Value}
    (h : argumentComma c = .ok (a, c')) : ∃ d, argument c = .ok (a, d) ∧
      d.ahead = .symbol .comma :: c'.ahead ∧ c'.index = d.index + 1 := by
  obtain ⟨⟨_, d⟩, hargument, hrest⟩ := bind_eq_ok.mp h
  obtain ⟨⟨_, e⟩, hcomma, hpure⟩ := bind_eq_ok.mp hrest
  obtain ⟨rest, hahead, _, rfl⟩ := expect_eq_ok hcomma
  cases hpure
  exact ⟨d, hargument, hahead, rfl⟩

theorem joins_arguments : Joins (fun _ => argumentComma) arguments arguments rest List.cons := by
  intro first second Q₁ Q₂ hfirst hsecond m hm index
  obtain ⟨a, ha, hQ₁⟩ := hfirst _ (Nat.le_refl _) index
  obtain ⟨d, hargument, hd, hindex⟩ := argumentComma_eq_ok ha
  dsimp only at hd hindex
  have hshorter : (second ++ rest).length < (first ++ (second ++ rest)).length := by
    obtain ⟨taken, hahead, _⟩ := advances_argument.exists_append hargument
    dsimp only at hahead
    have hlength := congrArg List.length (hahead.trans (congrArg (taken ++ ·) hd))
    simp only [List.length_append, List.length_cons] at hlength ⊢
    omega
  rw [List.append_assoc] at hm ⊢
  obtain ⟨k, rfl⟩ : ∃ k, m = k + 1 := ⟨m - 1, by omega⟩
  obtain ⟨as, has, hQ₂⟩ := hsecond k (by omega) (index + first.length)
  refine ⟨a :: as, ?_, a, as, rfl, hQ₁, hQ₂⟩
  rw [arguments, bind_eq_of_eq_ok hargument, bind_eq_of_eq_ok (eat_of_head hd), ← hindex]
  dsimp only
  rw [bind_eq_of_eq_ok has, List.length_append, ← Nat.add_assoc]
  rfl

theorem splits_arguments : Splits List.cons
    (fun a : Located TokenRange Name × Located TokenRange Value => [a.2.map .argument])
    argumentPhrases argumentPhrases (fun a => a.1.val) argumentNames argumentNames where
  phrases _ _ := rfl
  blank hname hnames := congrArg₂ List.cons hname hnames

/-- The last argument. -/
theorem readsWith_arguments_single
    {Q : Located TokenRange Name × Located TokenRange Value → Prop}
    (h : ReadsWith (fun _ => argument) taken rest Q)
    (hclose : rest.head? = some (.symbol .rightParen)) :
    ReadsWith arguments taken rest fun as => ∃ a, as = [a] ∧ Q a := by
  have hpos : 0 < rest.length := List.length_pos_iff.mpr (Follows.ne_nil (.inr hclose))
  intro m hm
  rw [List.length_append] at hm
  obtain ⟨k, rfl⟩ : ∃ k, m = k + 1 := ⟨m - 1, by omega⟩
  refine Reads.last (h _ (Nat.le_refl _)) fun a ha => ?_
  refine Reads.look (reads_eat_none (by simp [hclose])) ?_
  rintro _ rfl
  exact reads_pure ⟨a, rfl, ha⟩

theorem refills_arguments {as : List (Located TokenRange Name × Located TokenRange Value)}
    (hn : c.ahead.length ≤ n) (h : arguments n c = .ok (as, c'))
    (hahead : c.ahead = taken ++ c'.ahead)
    (hclose : c'.ahead.head? = some (.symbol .rightParen)) :
    Refills arguments argumentPhrases argumentNames c.index taken c'.ahead as := by
  have hne : c'.ahead ≠ [] := Follows.ne_nil (.inr hclose)
  induction n generalizing c as taken with
  | zero => exact absurd h (fail_ne_ok _ c _)
  | succ n ih =>
    obtain ⟨⟨first, c₁⟩, hfirst, hrest⟩ := bind_eq_ok.mp h
    dsimp only at hrest
    obtain ⟨takenFirst, haheadFirst, _⟩ := advances_argument.exists_append hfirst
    by_cases hcomma : c₁.ahead.head? = some (.symbol .comma)
    · obtain ⟨ahead₁, hahead₁⟩ := List.head?_eq_some_iff.mp hcomma
      rw [bind_eq_of_eq_ok (eat_of_head hahead₁)] at hrest
      obtain ⟨more, hmore, rfl⟩ := bind_pure_eq_ok.mp hrest
      obtain ⟨takenMore, rfl, _⟩ := (advances_arguments n).exists_append hmore
      have hindex := advances_argument.index_eq hfirst haheadFirst (by simp [hahead₁])
      have hle : (takenMore ++ c'.ahead).length ≤ n := by
        rw [haheadFirst, hahead₁, List.length_append, List.length_cons] at hn
        omega
      obtain rfl : taken = (takenFirst ++ [.symbol .comma]) ++ takenMore := by
        refine List.append_cancel_right (hahead.symm.trans ?_)
        rw [haheadFirst, hahead₁]
        simp only [List.append_assoc, List.cons_append, List.nil_append]
      have hstart : c₁.index + 1 = c.index + (takenFirst ++ [Token.symbol .comma]).length := by
        rw [hindex, List.length_append, List.length_singleton, Nat.add_assoc]
      have hslot := refills_argument hfirst haheadFirst (.inl hcomma)
      rw [hahead₁] at hslot
      refine joins_arguments.refills splits_arguments ?_ ?_ (hstart ▸ ih hle hmore rfl) ?_
      · exact fun before w after hphrases => .append (hslot before w after hphrases)
          fun v taken' htaken _ _ => reads_argumentComma (htaken _ (Nat.le_refl _))
      · exact fun m hm => (reads_again mirrors_arguments (advances_arguments m) hmore hle rfl _
          (Lookahead.full_refl _) hne hm).mono fun _ => kept_arguments
      · intro _ _ _ _ second' _ _ _ _
        refine reads_argumentComma ((reads_again mirrors_argument advances_argument hfirst
          (Nat.le_refl _) haheadFirst (.symbol .comma :: (second' ++ c'.ahead)) ?_
          (List.cons_ne_nil _ _) (Nat.le_refl _)).mono fun _ => kept_argument)
        rw [hahead₁]
        exact Lookahead.full_symbol _ _ _
    · rw [bind_eq_of_eq_ok (eat_of_not_head hcomma)] at hrest
      cases hrest
      obtain rfl := List.append_cancel_right (hahead.symm.trans haheadFirst)
      intro before w after hphrases
      have hslot := refills_argument hfirst hahead (.inr hclose) before w after hphrases
      refine .mono hslot fun v taken' htaken m hm => ?_
      refine (readsWith_arguments_single htaken hclose m hm).mono ?_
      rintro _ ⟨b, rfl, hb⟩
      exact ⟨hb.phrases, congrArg (List.cons · []) hb.blank⟩

/-! ### Annotations -/

/-- An annotation with arguments. -/
theorem tag_cases {t : TagItem TokenRange} (h : tag c = .ok (t, c')) :
    t.arguments = [] ∨ ∃ (name ahead : List Token) (d : Cursor),
      c.ahead = .symbol .atSign :: (name ++ .symbol .leftParen :: ahead) ∧
      qualifiedName (⟨name ++ .symbol .leftParen :: ahead, c.index + 1⟩ : Cursor) =
        .ok (t.name, ⟨.symbol .leftParen :: ahead, c.index + 1 + name.length⟩) ∧
      ahead.head? ≠ some (.symbol .rightParen) ∧
      arguments ahead.length ⟨ahead, c.index + 1 + name.length + 1⟩ = .ok (t.arguments, d) ∧
      d.ahead = .symbol .rightParen :: c'.ahead := by
  obtain ⟨⟨_, d₁⟩, hat, hafter⟩ := bind_eq_ok.mp h
  obtain ⟨ahead₁, hahead₁, _, rfl⟩ := expect_eq_ok hat
  obtain ⟨⟨name, d₂⟩, hname, hopen⟩ := bind_eq_ok.mp hafter
  dsimp only at hopen
  by_cases hparen : d₂.ahead.head? = some (.symbol .leftParen)
  · obtain ⟨ahead, hahead⟩ := List.head?_eq_some_iff.mp hparen
    rw [bind_eq_of_eq_ok (eat_of_head hahead)] at hopen
    dsimp only at hopen
    by_cases hclose : ahead.head? = some (.symbol .rightParen)
    · obtain ⟨rest, rfl⟩ := List.head?_eq_some_iff.mp hclose
      cases hopen
      exact .inl rfl
    · have hnone := eat_of_not_head (c := ⟨ahead, d₂.index + 1⟩) hclose
      rw [bind_eq_of_eq_ok hnone] at hopen
      obtain ⟨⟨as, d⟩, has, hend⟩ := bind_eq_ok.mp hopen
      obtain ⟨⟨_, d₄⟩, hparen', hpure⟩ := bind_eq_ok.mp hend
      obtain ⟨rest, hrest, _, rfl⟩ := expect_eq_ok hparen'
      cases hpure
      obtain ⟨taken, rfl, _⟩ := advances_qualifiedName.exists_append hname
      have hindex := advances_qualifiedName.index_eq hname rfl (by simp [hahead])
      obtain ⟨ahead₂, index₂⟩ := d₂
      obtain rfl : ahead₂ = _ := hahead
      obtain rfl : index₂ = c.index + 1 + taken.length := hindex
      exact .inr ⟨taken, ahead, d, hahead₁, hname, hclose, has, hrest⟩
  · rw [bind_eq_of_eq_ok (eat_of_not_head hparen)] at hopen
    cases hopen
    exact .inl rfl

theorem blank_of_names {s t : TagItem TokenRange} (hname : s.name.val = t.name.val)
    (hnames : argumentNames s.arguments = argumentNames t.arguments) : s.blank = t.blank := by
  have hblank : ∀ t : TagItem TokenRange, t.blank =
      ⟨⟨t.name.val, ()⟩,
        (argumentNames t.arguments).map fun name => (⟨name, ()⟩, ⟨.list [], ()⟩)⟩ := by
    intro t
    rw [TagItem.blank, argumentNames, List.map_map]
    rfl
  rw [hblank, hblank, hname, hnames]

theorem arguments_head {as : List (Located TokenRange Name × Located TokenRange Value)}
    (h : arguments n c = .ok (as, c')) : c.ahead.head? ≠ some (.symbol .rightParen) := by
  intro hclose
  obtain ⟨ahead, index⟩ := c
  obtain ⟨rest, rfl⟩ := List.head?_eq_some_iff.mp hclose
  cases n with
  | zero => cases h
  | succ n =>
    obtain ⟨⟨first, d⟩, hfirst, _⟩ := bind_eq_ok.mp h
    rcases argument_cases hfirst with ⟨name, more, hahead, _⟩ | ⟨_, hphrase⟩
    · cases hahead
    · cases hphrase

theorem refills_tag {t : TagItem TokenRange} (h : tag c = .ok (t, c'))
    (hahead : c.ahead = taken ++ c'.ahead) :
    Refills (fun _ => tag) TagItem.phrases TagItem.blank c.index taken c'.ahead t := by
  intro before w after hphrases
  rcases tag_cases h with hnil | ⟨name, ahead, d, hc, hname, hclose, has, hd⟩
  · rw [TagItem.phrases, hnil] at hphrases
    cases before <;> cases hphrases
  · obtain ⟨takenArguments, hahead', _⟩ := (advances_arguments _).exists_append has
    dsimp only at hahead'
    have hslot := refills_arguments (c := ⟨ahead, c.index + 1 + name.length + 1⟩) (Nat.le_refl _)
      has hahead' (by rw [hd, List.head?_cons]) before w after hphrases
    rw [hd] at hslot
    obtain rfl : taken = (.symbol .atSign :: (name ++ [.symbol .leftParen])) ++
        (takenArguments ++ [.symbol .rightParen]) := by
      refine List.append_cancel_right (hahead.symm.trans (hc.trans ?_))
      simp [hahead', hd]
    have hstart : c.index + 1 + name.length + 1 =
        c.index + (Token.symbol .atSign :: (name ++ [.symbol .leftParen])).length := by
      simp only [List.length_cons, List.length_append, List.length_nil]
      omega
    refine .within hslot hstart fun v taken' htaken _ _ => ?_
    have hagain := reads_again (mirrors_qualifiedName (Lookahead.full_tells _))
      advances_qualifiedName hname (Nat.le_refl _) rfl
      (.symbol .leftParen :: (taken' ++ [.symbol .rightParen]) ++ c'.ahead)
      (Lookahead.full_symbol _ _ _) (List.cons_ne_nil _ _) (Nat.le_refl _)
    have hhead : (taken' ++ [Token.symbol .rightParen] ++ c'.ahead).head? ≠
        some (.symbol .rightParen) := by
      obtain ⟨as', has', _⟩ := htaken _ (Nat.le_refl _) 0
      rw [List.append_assoc]
      exact arguments_head has'
    rw [List.cons_append, List.append_assoc, List.singleton_append]
    refine Reads.take reads_expect fun _ _ => Reads.bind hagain fun name' hname' => ?_
    refine Reads.take reads_eat ?_
    rintro _ ⟨r, rfl⟩
    refine Reads.look (reads_eat_none hhead) ?_
    rintro _ rfl
    refine Reads.look reads_remaining ?_
    rintro _ rfl
    refine Reads.bind (htaken _ (Nat.le_of_eq ?_)) fun as' has' => ?_
    · rw [List.append_assoc, List.singleton_append]
    refine Reads.last reads_expect fun _ _ => reads_pure ⟨has'.phrases, ?_⟩
    exact blank_of_names (Located.val_eq_of_move hname').symm has'.blank

theorem tags_cases {found : List (TagItem TokenRange)} (h : tags n c = .ok (found, c')) :
    (found = [] ∧ c' = c) ∨ ∃ k first more d, n = k + 1 ∧ found = first :: more ∧
      c.ahead.head? = some (.symbol .atSign) ∧ tag c = .ok (first, d) ∧
      tags k d = .ok (more, c') := by
  cases n with
  | zero =>
    cases h
    exact .inl ⟨rfl, rfl⟩
  | succ n =>
    have htags : tags (n + 1) c = (if c.ahead.head? == some (Token.symbol .atSign) then
        (do return (← tag) :: (← tags n)) else return []) c := rfl
    rw [htags] at h
    by_cases hat : c.ahead.head? = some (.symbol .atSign)
    · rw [if_pos (by simpa using hat)] at h
      obtain ⟨⟨first, d⟩, hfirst, hrest⟩ := bind_eq_ok.mp h
      obtain ⟨more, hmore, rfl⟩ := bind_pure_eq_ok.mp hrest
      exact .inr ⟨n, first, more, d, rfl, rfl, hat, hfirst, hmore⟩
    · rw [if_neg (by simpa using hat)] at h
      cases h
      exact .inl ⟨rfl, rfl⟩

theorem head_of_tags {found : List (TagItem TokenRange)} (h : tags n c = .ok (found, c'))
    (hne : found ≠ []) : c.ahead.head? = some (.symbol .atSign) := by
  rcases tags_cases h with ⟨rfl, _⟩ | ⟨_, _, _, _, _, _, hat, _⟩
  · exact absurd rfl hne
  · exact hat

section Heads

variable {found found' : List (TagItem TokenRange)}
  {before after : List (Located TokenRange Phrase)} {w : Located TokenRange Phrase} {v : Phrase}

theorem head_of_phrases (h : tags n c = .ok (found, c'))
    (hphrases : found.flatMap TagItem.phrases = before ++ w :: after) :
    c.ahead.head? = some (.symbol .atSign) := by
  refine head_of_tags h ?_
  rintro rfl
  cases before <;> cases hphrases

theorem head_of_changed (h : tags n c = .ok (found', c'))
    (hchanged : Changed (List.flatMap TagItem.phrases) (List.map TagItem.blank) before after found v
      found') : c.ahead.head? = some (.symbol .atSign) := by
  refine head_of_tags h ?_
  rintro rfl
  simpa using hchanged.phrases

end Heads

theorem head_of_tag {t : TagItem TokenRange} (h : tag c = .ok (t, c')) :
    c.ahead.head? = some (.symbol .atSign) := by
  obtain ⟨⟨_, d⟩, hat, _⟩ := bind_eq_ok.mp h
  obtain ⟨rest, hahead, _⟩ := expect_eq_ok hat
  rw [hahead, List.head?_cons]

/-- One annotation more. -/
theorem reads_tags_cons {t : TagItem TokenRange → Prop} {ts : List (TagItem TokenRange) → Prop}
    {first more : List Token} (hfirst : Reads tag first (more ++ rest) t)
    (hmore : Reads (tags n) more rest ts) : Reads (tags (n + 1)) (first ++ more) rest fun found =>
      ∃ a as, found = a :: as ∧ t a ∧ ts as := by
  have hat : (first ++ more ++ rest).head? = some (.symbol .atSign) := by
    obtain ⟨a, ha, _⟩ := hfirst 0
    rw [List.append_assoc]
    exact head_of_tag ha
  refine Reads.look reads_sees ?_
  rintro _ rfl
  rw [hat, if_pos (beq_self_eq_true _)]
  exact Reads.bind hfirst fun a ha => Reads.last hmore fun as has =>
    reads_pure ⟨a, as, rfl, ha, has⟩

theorem kept_tag {a b : TagItem TokenRange} (h : a.move nowhere = b.move nowhere) :
    Kept TagItem.phrases TagItem.blank a b := by
  have hphrases := congrArg (fun t => t.phrases.map (·.val)) h
  have hblank := congrArg TagItem.blank h
  simp only [TagItem.phrases_move, List.map_map, Function.comp_def, Located.move] at hphrases
  rw [TagItem.blank_move, TagItem.blank_move] at hblank
  exact ⟨hphrases.symm, hblank.symm⟩

theorem kept_tags {as bs : List (TagItem TokenRange)}
    (h : as.map (·.move nowhere) = bs.map (·.move nowhere)) :
    Kept (List.flatMap TagItem.phrases) (List.map TagItem.blank) as bs := by
  have hphrases := congrArg (fun ts => (List.flatMap TagItem.phrases ts).map (·.val)) h
  have hblank := congrArg (List.map TagItem.blank) h
  simp only [TagItem.flatMap_phrases_move, List.map_map, Function.comp_def, Located.move]
    at hphrases
  simp only [TagItem.map_blank_move] at hblank
  exact ⟨hphrases.symm, hblank.symm⟩

theorem joins_tags : Joins (fun _ => tag) tags tags rest List.cons := by
  intro first second Q₁ Q₂ hfirst hsecond m hm
  have hpos := (hfirst _ (Nat.le_refl _)).length_pos progresses_tag
  rw [List.append_assoc, List.length_append] at hm
  obtain ⟨k, rfl⟩ : ∃ k, m = k + 1 := ⟨m - 1, by omega⟩
  exact reads_tags_cons (hfirst _ (Nat.le_refl _)) (hsecond k (by omega))

theorem splits_tags : Splits List.cons TagItem.phrases (List.flatMap TagItem.phrases)
    (List.flatMap TagItem.phrases) TagItem.blank (List.map TagItem.blank)
    (List.map TagItem.blank) where
  phrases _ _ := List.flatMap_cons
  blank htag htags := congrArg₂ List.cons htag htags

theorem refills_tags {found : List (TagItem TokenRange)} (hn : c.ahead.length ≤ n)
    (h : tags n c = .ok (found, c')) (hahead : c.ahead = taken ++ c'.ahead) (hne : c'.ahead ≠ []) :
    Refills tags (List.flatMap TagItem.phrases) (List.map TagItem.blank) c.index taken c'.ahead
      found := by
  induction n generalizing c found taken with
  | zero =>
    cases h
    exact refills_nil rfl
  | succ n ih =>
    rcases tags_cases h with ⟨rfl, _⟩ | ⟨k, first, more, d, hk, rfl, _, hfirst, hmore⟩
    · exact refills_nil rfl
    · obtain rfl := Nat.succ.inj hk
      obtain ⟨takenFirst, haheadFirst, _⟩ := Takes.exists_append progresses_tag hfirst
      obtain ⟨takenMore, haheadMore, _⟩ := (advances_tags n).exists_append hmore
      obtain rfl : taken = takenFirst ++ takenMore := by
        refine List.append_cancel_right (hahead.symm.trans ?_)
        rw [haheadFirst, haheadMore, List.append_assoc]
      have hned : d.ahead ≠ [] := by
        rw [haheadMore]
        exact List.append_ne_nil_of_right_ne_nil _ hne
      have hindex := Takes.index_eq progresses_tag hfirst haheadFirst hned
      have hle : d.ahead.length ≤ n := by
        have := Progresses.length_lt progresses_tag hfirst
        omega
      have hslot := refills_tag hfirst haheadFirst
      rw [haheadMore] at hslot
      refine joins_tags.refills splits_tags hslot ?_ (hindex ▸ ih hle hmore haheadMore) ?_
      · exact fun m hm => (reads_again mirrors_tags (advances_tags m) hmore hle haheadMore _
          (Lookahead.full_refl _) hne hm).mono fun _ => kept_tags
      · -- a later annotation is replaced, so there is one, before and after
        intro before w after v second' hphrases hread _ _
        obtain ⟨found', hfound', hchanged⟩ := hread _ (Nat.le_refl _) 0
        have halike := Lookahead.full_of_head (head_of_phrases hmore hphrases)
          (head_of_changed hfound' hchanged)
        exact (reads_again mirrors_tag (.mono progresses_tag fun _ _ _ => trivial) hfirst
          (Nat.le_refl _) haheadFirst (second' ++ c'.ahead) halike
          (List.append_ne_nil_of_right_ne_nil _ hne) (Nat.le_refl _)).mono fun _ => kept_tag

end Parser

end Projection
