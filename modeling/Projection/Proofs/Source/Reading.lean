import Projection.Source.Parser

/-!
# What parsers take

`Parser.Reads p taken rest Q` says that the parser `p` takes exactly the tokens `taken`, whatever
their number in the source, when `rest` comes after them, and that its result satisfies `Q`. Parsers
look ahead, so `rest` is part of the statement: a name ends where no dot follows.

A parser that is put together from others takes what these take one after the other
(`Reads.bind`), so the proofs about parsers follow their text.
-/

namespace Projection

namespace Parser

variable {α β : Type}

/-- The parser takes these tokens before the rest, and its result has the property. -/
def Reads (p : Parser α) (taken rest : List Token) (Q : α → Prop) : Prop :=
  ∀ index, ∃ a, p ⟨taken ++ rest, index⟩ = .ok (a, ⟨rest, index + taken.length⟩) ∧ Q a

section Rules

variable {p : Parser α} {k : α → Parser β} {first second taken rest : List Token} {t : Token}
  {Q : α → Prop} {R : β → Prop}

theorem Reads.mono {Q' : α → Prop} (hp : Reads p taken rest Q) (h : ∀ a, Q a → Q' a) :
    Reads p taken rest Q' := by
  intro index
  obtain ⟨a, ha, hQ⟩ := hp index
  exact ⟨a, ha, h a hQ⟩

theorem reads_pure {a : α} (h : Q a) : Reads (pure a) [] rest Q :=
  fun _ => ⟨a, rfl, h⟩

/-- A fault would be told to be in the declaration, but there is none. -/
theorem Reads.within (hp : Reads p taken rest Q) {name : Name} :
    Reads (within name p) taken rest Q := by
  intro index
  obtain ⟨a, ha, hQ⟩ := hp index
  exact ⟨a, within_eq_ok.mpr ha, hQ⟩

/-- One parser after another. -/
theorem Reads.bind (hp : Reads p first (second ++ rest) Q)
    (hk : ∀ a, Q a → Reads (k a) second rest R) : Reads (p >>= k) (first ++ second) rest R := by
  intro index
  obtain ⟨a, ha, hQ⟩ := hp index
  obtain ⟨b, hb, hR⟩ := hk a hQ (index + first.length)
  refine ⟨b, ?_, hR⟩
  change (p ⟨first ++ second ++ rest, index⟩ >>= fun x => k x.1 x.2) = _
  rw [List.append_assoc, ha, List.length_append, ← Nat.add_assoc]
  exact hb

/-- A parser that takes nothing comes first. -/
theorem Reads.look (hp : Reads p [] (taken ++ rest) Q)
    (hk : ∀ a, Q a → Reads (k a) taken rest R) : Reads (p >>= k) taken rest R :=
  Reads.bind hp hk

/-- A parser that takes one token comes first. -/
theorem Reads.take (hp : Reads p [t] (taken ++ rest) Q)
    (hk : ∀ a, Q a → Reads (k a) taken rest R) : Reads (p >>= k) (t :: taken) rest R :=
  Reads.bind hp hk

/-- Nothing is taken after the first parser. -/
theorem Reads.last (hp : Reads p taken rest Q) (hk : ∀ a, Q a → Reads (k a) [] rest R) :
    Reads (p >>= k) taken rest R := by
  rw [← List.append_nil taken]
  exact Reads.bind hp hk

end Rules

/-! ### One token -/

variable {s : Symbol} {t : Token} {rest : List Token}

theorem reads_remaining : Reads remaining [] rest (· = rest.length) :=
  fun _ => ⟨_, rfl, rfl⟩

theorem reads_peek : Reads peek [] rest (· = rest.head?) :=
  fun _ => ⟨_, rfl, rfl⟩

theorem reads_peekSecond : Reads peekSecond [] rest (· = rest.tail.head?) :=
  fun _ => ⟨_, rfl, rfl⟩

theorem reads_sees : Reads (sees s) [] rest (· = (rest.head? == some (.symbol s))) :=
  fun _ => ⟨_, rfl, rfl⟩

theorem reads_advance : Reads advance [t] rest fun _ => True :=
  fun _ => ⟨_, rfl, trivial⟩

theorem reads_eatToken : Reads (eatToken t) [t] rest fun o => ∃ r, o = some r := by
  apply Reads.look reads_peek
  rintro _ rfl
  rw [List.singleton_append, List.head?_cons, if_pos (beq_self_eq_true _)]
  exact Reads.last reads_advance fun r _ => reads_pure ⟨r, rfl⟩

theorem reads_eatToken_none (h : rest.head? ≠ some t) : Reads (eatToken t) [] rest (· = none) := by
  apply Reads.look reads_peek
  rintro _ rfl
  rw [List.nil_append, if_neg (by simpa using h)]
  exact reads_pure rfl

theorem reads_eat : Reads (eat s) [.symbol s] rest fun o => ∃ r, o = some r :=
  reads_eatToken

theorem reads_eat_none (h : rest.head? ≠ some (.symbol s)) : Reads (eat s) [] rest (· = none) :=
  reads_eatToken_none h

/-- A sign that may be there. -/
theorem reads_eat_if (present : Bool) (h : rest.head? ≠ some (.symbol s)) :
    Reads (eat s) (if present then [.symbol s] else []) rest (·.isSome = present) := by
  cases present with
  | true =>
    refine reads_eat.mono ?_
    rintro _ ⟨r, rfl⟩
    rfl
  | false =>
    refine (reads_eat_none h).mono ?_
    rintro _ rfl
    rfl

theorem reads_expect {expected : Expected} :
    Reads (expect s expected) [.symbol s] rest fun _ => True := by
  apply Reads.last reads_eat
  rintro _ ⟨r, rfl⟩
  exact reads_pure trivial

theorem reads_word? {name : Name} :
    Reads word? [.word name] rest fun w => ∃ r, w = some ⟨name, r⟩ := by
  apply Reads.look reads_peek
  rintro _ rfl
  exact Reads.last reads_advance fun r _ => reads_pure ⟨r, rfl⟩

theorem reads_word?_none (h : ∀ name, rest.head? ≠ some (.word name)) :
    Reads word? [] rest (· = none) := by
  apply Reads.look reads_peek
  rintro _ rfl
  rw [List.nil_append]
  split
  · rename_i name hname
    exact absurd hname (h name)
  · exact reads_pure rfl

theorem reads_word {name : Name} : Reads word [.word name] rest (·.val = name) := by
  apply Reads.last reads_word?
  rintro _ ⟨r, rfl⟩
  exact reads_pure rfl

theorem reads_attempt {p : Parser α} {taken : List Token} {Q : α → Prop}
    (hp : Reads p taken rest Q) :
    Reads (attempt p) taken rest fun o => ∃ a, o = some a ∧ Q a := by
  intro index
  obtain ⟨a, ha, hQ⟩ := hp index
  exact ⟨some a, by rw [attempt, ha], a, rfl, hQ⟩

end Parser

end Projection
