import Projection.Proofs.Source.Declarations
import Projection.Proofs.Source.Phrases

/-!
# Slots of phrases

The tokens of a phrase stand in a slot among those of a larger part (`Parser.Slot`), and others that
spell a phrase of the same kind can be put there (`Parser.Fillable`). `Parser.Refills` states for
one parser and one run of it that every phrase of the answer has such a slot: with another phrase in
it the tokens are read as before, up to this phrase.

Where one parser follows another this is known of both and of the whole (`Parser.Joins.refills`): a
phrase of the first part is replaced and the second part is read again, or the other way round.
-/

namespace Projection

/-- A member of two lists, one behind the other, is in the first or in the second. -/
theorem List.append_eq_append_cons {α : Type} {xs ys before after : List α} {w : α}
    (h : xs ++ ys = before ++ w :: after) :
    (∃ more, xs = before ++ w :: more ∧ after = more ++ ys) ∨
      ∃ more, before = xs ++ more ∧ ys = more ++ w :: after := by
  rcases List.append_eq_append_iff.mp h with ⟨more, hbefore, hys⟩ | ⟨more, hxs, hafter⟩
  · exact .inr ⟨more, hbefore, hys⟩
  · cases more with
    | nil => exact .inr ⟨[], by rw [hxs, List.append_nil, List.append_nil], hafter.symm⟩
    | cons x more =>
      obtain ⟨rfl, rfl⟩ := List.cons.inj hafter
      exact .inl ⟨more, hxs, rfl⟩

namespace Parser

variable {α β γ : Type} {n m start : Nat} {c c' : Cursor} {taken rest : List Token}

/-! ### Reading again -/

theorem Lookahead.full_refl (rest : List Token) : full.Alike rest rest :=
  ⟨rfl, fun _ => rfl⟩

theorem Lookahead.full_symbol (s : Symbol) (r r' : List Token) :
    full.Alike (.symbol s :: r) (.symbol s :: r') :=
  ⟨rfl, fun h => by cases h⟩

theorem Lookahead.full_word (name : Name) (r r' : List Token) :
    full.Alike (.word name :: r) (.word name :: r') :=
  ⟨rfl, fun h => by cases h⟩

theorem Lookahead.full_of_head {s : Symbol} {r r' : List Token} (h : r.head? = some (.symbol s))
    (h' : r'.head? = some (.symbol s)) : full.Alike r r' := by
  obtain ⟨r, rfl⟩ := List.head?_eq_some_iff.mp h
  obtain ⟨r', rfl⟩ := List.head?_eq_some_iff.mp h'
  exact full_symbol s r r'

/-- What was read once is read again, before a rest that looks alike. -/
theorem reads_again {p q : Parser α} {view : α → γ} (h : Mirrors .full n m p q view)
    (hq : Advances q) {a : α} (hp : p c = .ok (a, c')) (hn : c.ahead.length ≤ n)
    (hahead : c.ahead = taken ++ c'.ahead) (rest : List Token)
    (hrest : Lookahead.full.Alike c'.ahead rest) (hne : rest ≠ [])
    (hm : (taken ++ rest).length ≤ m) :
    Reads q taken rest fun b => view a = view b := by
  intro index
  obtain ⟨taken', hahead', _, hmirror⟩ := h c hn a c' hp
  obtain rfl : taken = taken' := List.append_cancel_right (hahead.symm.trans hahead')
  obtain ⟨b, d, hb, rfl, hview⟩ := hmirror ⟨taken ++ rest, index⟩ rest hrest rfl hm
  have hindex := Takes.index_eq hq hb rfl hne
  exact ⟨b, by rw [hb, ← hindex], hview⟩

theorem Reads.length_pos {p : Parser α} {Q : α → Prop} (h : Reads p taken rest Q)
    (hp : Progresses p) : 0 < taken.length := by
  obtain ⟨a, ha, _⟩ := h 0
  exact List.length_pos_iff.mpr (Takes.of_ahead hp ha rfl)

/-- The parser takes these tokens before the rest, with every count that covers the tokens ahead. -/
def ReadsWith (p : Nat → Parser α) (taken rest : List Token) (Q : α → Prop) : Prop :=
  ∀ m, (taken ++ rest).length ≤ m → Reads (p m) taken rest Q

/-! ### Slots -/

/-- Among tokens that are read from the number `start` on, the phrase stands behind `lead` and
before `tail`. -/
structure Slot (start : Nat) (tokens : List Token) (w : Located TokenRange Phrase)
    (lead old tail : List Token) : Prop where
  tokens_eq : tokens = lead ++ (old ++ tail)
  phrase : PhraseAt (start + lead.length) old w

/-- The phrase stands among the tokens, and with tokens of another phrase in its place they satisfy
`T`. -/
def Fillable (T : Phrase → List Token → Prop) (start : Nat) (tokens : List Token)
    (w : Located TokenRange Phrase) : Prop :=
  ∃ lead old tail, Slot start tokens w lead old tail ∧ ∀ v new, v.kind = w.val.kind →
    Spelled v new → T v (lead ++ (new ++ tail))

section Fillable

variable {T U : Phrase → List Token → Prop} {w : Located TokenRange Phrase}

/-- More tokens on both sides. -/
theorem Fillable.within {first mid more : List Token} {start' : Nat} (h : Fillable T start' mid w)
    (hstart : start' = start + first.length)
    (hU : ∀ v mid', T v mid' → U v (first ++ (mid' ++ more))) :
    Fillable U start (first ++ (mid ++ more)) w := by
  obtain ⟨lead, old, tail, ⟨rfl, hphrase⟩, hfill⟩ := h
  refine ⟨first ++ lead, old, tail ++ more, ⟨by simp only [List.append_assoc], ?_⟩, ?_⟩
  · rwa [List.length_append, ← Nat.add_assoc, ← hstart]
  · intro v new hkind hnew
    simpa only [List.append_assoc] using hU v _ (hfill v new hkind hnew)

/-- More tokens behind. -/
theorem Fillable.append {mid more : List Token} (h : Fillable T start mid w)
    (hU : ∀ v mid', T v mid' → U v (mid' ++ more)) : Fillable U start (mid ++ more) w := by
  have hstart : start = start + ([] : List Token).length := rfl
  exact .within h hstart hU

/-- More tokens before. -/
theorem Fillable.prepend {first mid : List Token} {start' : Nat} (h : Fillable T start' mid w)
    (hstart : start' = start + first.length) (hU : ∀ v mid', T v mid' → U v (first ++ mid')) :
    Fillable U start (first ++ mid) w := by
  have hmore := h.within hstart fun v mid' hmid => (List.append_nil mid').symm ▸ hU v mid' hmid
  rwa [List.append_nil] at hmore

theorem Fillable.mono (h : Fillable T start taken w)
    (hU : ∀ v taken', T v taken' → U v taken') : Fillable U start taken w := by
  have hstart : start = start + ([] : List Token).length := rfl
  exact .prepend h hstart hU

end Fillable

/-- The parser reads the tokens before the rest, also with another phrase in place of this one, and
`R` tells what its answer is then. -/
def RefillsAt (p : Nat → Parser α) (R : Phrase → α → Prop) (start : Nat) (taken rest : List Token)
    (w : Located TokenRange Phrase) : Prop :=
  Fillable (fun v taken' => ReadsWith p taken' rest (R v)) start taken w

/-- The phrase itself. -/
theorem refillsAt_phrase {w : Located TokenRange Phrase} (h : PhraseAt start taken w)
    (hrest : Follows w.val.kind rest) :
    RefillsAt (fun _ => phrase w.val.kind) (fun v found => found.val = v) start taken rest w := by
  refine ⟨[], taken, [], ⟨by rw [List.append_nil, List.nil_append], h⟩, ?_⟩
  intro v new hkind hnew _ _
  rw [List.append_nil, List.nil_append, ← hkind]
  exact hnew (hkind ▸ hrest)

/-- The second answer has another phrase between `before` and `after`, and is the same otherwise. -/
structure Changed (phrases : α → List (Located TokenRange Phrase)) (blank : α → β)
    (before after : List (Located TokenRange Phrase)) (a : α) (v : Phrase) (a' : α) : Prop where
  phrases : (phrases a').map (·.val) = before.map (·.val) ++ v :: after.map (·.val)
  blank : blank a' = blank a

/-- Each phrase of an answer can be replaced by replacing its tokens. -/
def Refills (p : Nat → Parser α) (phrases : α → List (Located TokenRange Phrase)) (blank : α → β)
    (start : Nat) (taken rest : List Token) (a : α) : Prop :=
  ∀ before w after, phrases a = before ++ w :: after →
    RefillsAt p (Changed phrases blank before after a) start taken rest w

/-- The second answer has the same phrases, and is the same otherwise. -/
structure Kept (phrases : α → List (Located TokenRange Phrase)) (blank : α → β) (a a' : α) :
    Prop where
  phrases : (phrases a').map (·.val) = (phrases a).map (·.val)
  blank : blank a' = blank a

section Single

variable {p : Nat → Parser α} {phrases : α → List (Located TokenRange Phrase)} {blank : α → β}
  {a : α}

theorem refills_nil (hnone : phrases a = []) : Refills p phrases blank start taken rest a := by
  intro before w after hphrases
  rw [hnone] at hphrases
  cases before <;> cases hphrases

/-- A part with one phrase. -/
theorem refills_single {w : Located TokenRange Phrase} (hone : phrases a = [w])
    (h : RefillsAt p (fun v b => (phrases b).map (·.val) = [v] ∧ blank b = blank a) start taken rest
      w) :
    Refills p phrases blank start taken rest a := by
  intro before w' after hphrases
  rw [hone] at hphrases
  cases before with
  | cons x before => cases before <;> cases (List.cons.inj hphrases).2
  | nil =>
    obtain ⟨rfl, rfl⟩ := List.cons.inj hphrases
    refine .mono h fun v taken' htaken m hm => (htaken m hm).mono ?_
    rintro b ⟨hvals, hblank⟩
    exact ⟨hvals, hblank⟩

end Single

/-! ### One part behind another -/

section Joins

variable {α₁ α₂ β₁ β₂ : Type} {p₁ : Nat → Parser α₁} {p₂ : Nat → Parser α₂} {p : Nat → Parser α}
  {phrases₁ : α₁ → List (Located TokenRange Phrase)}
  {phrases₂ : α₂ → List (Located TokenRange Phrase)}
  {phrases : α → List (Located TokenRange Phrase)}
  {blank₁ : α₁ → β₁} {blank₂ : α₂ → β₂} {blank : α → β} {join : α₁ → α₂ → α}

/-- The phrases of an answer are those of its two parts, and it is told by its parts otherwise. -/
structure Splits (join : α₁ → α₂ → α) (phrases₁ : α₁ → List (Located TokenRange Phrase))
    (phrases₂ : α₂ → List (Located TokenRange Phrase))
    (phrases : α → List (Located TokenRange Phrase)) (blank₁ : α₁ → β₁) (blank₂ : α₂ → β₂)
    (blank : α → β) : Prop where
  phrases : ∀ a₁ a₂, phrases (join a₁ a₂) = phrases₁ a₁ ++ phrases₂ a₂
  blank : ∀ {a₁ b₁ a₂ b₂}, blank₁ b₁ = blank₁ a₁ → blank₂ b₂ = blank₂ a₂ →
    blank (join b₁ b₂) = blank (join a₁ a₂)

section Splits

variable {before after : List (Located TokenRange Phrase)} {a₁ b₁ : α₁} {a₂ b₂ : α₂} {v : Phrase}

theorem Splits.first (h : Splits join phrases₁ phrases₂ phrases blank₁ blank₂ blank)
    (h₁ : Changed phrases₁ blank₁ before after a₁ v b₁) (h₂ : Kept phrases₂ blank₂ a₂ b₂) :
    Changed phrases blank before (after ++ phrases₂ a₂) (join a₁ a₂) v (join b₁ b₂) := by
  refine ⟨?_, h.blank h₁.blank h₂.blank⟩
  rw [h.phrases, List.map_append, h₁.phrases, h₂.phrases]
  simp only [List.map_append, List.append_assoc, List.cons_append]

theorem Splits.second (h : Splits join phrases₁ phrases₂ phrases blank₁ blank₂ blank)
    (h₁ : Kept phrases₁ blank₁ a₁ b₁) (h₂ : Changed phrases₂ blank₂ before after a₂ v b₂) :
    Changed phrases blank (phrases₁ a₁ ++ before) after (join a₁ a₂) v (join b₁ b₂) := by
  refine ⟨?_, h.blank h₁.blank h₂.blank⟩
  rw [h.phrases, List.map_append, h₁.phrases, h₂.phrases]
  simp only [List.map_append, List.append_assoc]

end Splits

/-- What the third parser reads is what the first reads and behind it what the second does. Its
answer is put together from theirs. -/
def Joins (p₁ : Nat → Parser α₁) (p₂ : Nat → Parser α₂) (p : Nat → Parser α) (rest : List Token)
    (join : α₁ → α₂ → α) : Prop :=
  ∀ {first second Q₁ Q₂}, ReadsWith p₁ first (second ++ rest) Q₁ → ReadsWith p₂ second rest Q₂ →
    ReadsWith p (first ++ second) rest fun a => ∃ a₁ a₂, a = join a₁ a₂ ∧ Q₁ a₁ ∧ Q₂ a₂

theorem Joins.refills (h : Joins p₁ p₂ p rest join)
    (hsplits : Splits join phrases₁ phrases₂ phrases blank₁ blank₂ blank)
    {first second : List Token} {a₁ : α₁} {a₂ : α₂}
    (hfirst : Refills p₁ phrases₁ blank₁ start first (second ++ rest) a₁)
    (hkept₂ : ReadsWith p₂ second rest (Kept phrases₂ blank₂ a₂))
    (hsecond : Refills p₂ phrases₂ blank₂ (start + first.length) second rest a₂)
    (hkept₁ : ∀ {before w after v second'}, phrases₂ a₂ = before ++ w :: after →
      ReadsWith p₂ second' rest (Changed phrases₂ blank₂ before after a₂ v) →
        ReadsWith p₁ first (second' ++ rest) (Kept phrases₁ blank₁ a₁)) :
    Refills p phrases blank start (first ++ second) rest (join a₁ a₂) := by
  intro before w after hphrases
  rw [hsplits.phrases] at hphrases
  rcases List.append_eq_append_cons hphrases with ⟨later, hlater, rfl⟩ | ⟨earlier, rfl, hlater⟩
  · -- in the first part
    refine .append (hfirst before w later hlater) fun v first' hread m hm => ?_
    refine (h hread hkept₂ m hm).mono ?_
    rintro _ ⟨b₁, b₂, rfl, hb₁, hb₂⟩
    exact hsplits.first hb₁ hb₂
  · -- in the second part
    refine .prepend (hsecond earlier w after hlater) rfl fun v second' hread m hm => ?_
    refine (h (hkept₁ hlater hread) hread m hm).mono ?_
    rintro _ ⟨b₁, b₂, rfl, hb₁, hb₂⟩
    exact hsplits.second hb₁ hb₂

end Joins

end Parser

end Projection
