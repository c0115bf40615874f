import Projection.Proofs.Source.Formatting
import Projection.Proofs.Source.Taking

/-!
# What parsers look at

What a parser answers depends on the tokens that it takes and on the one or two tokens behind them.
`Parser.Mirrors` says so: where the parser `p` succeeds, the parser `q` succeeds at every place
where the same tokens are ahead with a rest that looks alike, leaves that rest, and gives the same
answer but for positions. No parser here takes a semicolon; this belongs to the property as well.

A `Lookahead` says which rests look alike. Most parsers see the next token, and the one after `as`
(`Lookahead.full`). A body ends with its brace, so what follows it does not matter
(`Lookahead.nothing`).

Loops count down from the number of tokens ahead, and that number is another one at another place.
So the counts of `p` and `q` are part of the property: they cover the tokens ahead.
-/

namespace Projection

theorem Located.val_eq_of_move {P α : Type} {a b : Located P α}
    (h : a.move nowhere = b.move nowhere) : a.val = b.val :=
  (Located.mk.inj h).1

theorem Located.move_eq_of_val {P α : Type} {a b : Located P α} (h : a.val = b.val) :
    a.move nowhere = b.move nowhere :=
  congrArg (Located.mk · ()) h

namespace Parser

/-- What a parser sees of the tokens behind those it takes. Rests that look alike do so behind the
same tokens as well. -/
structure Lookahead where
  Alike : List Token → List Token → Prop
  append : ∀ (taken : List Token) {r s : List Token}, Alike r s → Alike (taken ++ r) (taken ++ s)

namespace Lookahead

/-- The next token is not looked at. -/
def nothing : Lookahead where
  Alike _ _ := True
  append _ _ _ _ := trivial

/-- Something about the next token. -/
def only {γ : Type} (view : Option Token → γ) : Lookahead where
  Alike r s := view r.head? = view s.head?
  append taken r s h := by
    cases taken with
    | nil => exact h
    | cons t taken => rfl

/-- The next token, and the one after `as`. -/
def full : Lookahead where
  Alike r s := r.head? = s.head? ∧
    (r.head? = some (.keyword .asWord) → r.tail.head? = s.tail.head?)
  append taken r s h := by
    match taken with
    | [] => exact h
    | [t] => exact ⟨rfl, fun _ => h.1⟩
    | t :: u :: taken => exact ⟨rfl, fun _ => rfl⟩

/-- It is seen whether this token is next. -/
def Tells (L : Lookahead) (t : Token) : Prop :=
  ∀ r s, L.Alike r s → (r.head? = some t ↔ s.head? = some t)

theorem full_tells (t : Token) : full.Tells t := by
  intro r s h
  rw [h.1]

/-- Behind these tokens all rests look alike. -/
def Hides (L : Lookahead) (taken : List Token) : Prop :=
  ∀ r s, L.Alike (taken ++ r) (taken ++ s)

theorem full_hides {t : Token} (ht : t ≠ .keyword .asWord) (taken : List Token) :
    full.Hides (t :: taken) :=
  fun _ _ => ⟨rfl, fun has => absurd (Option.some.inj has) ht⟩

theorem eq_nil_of_full_alike {c : Cursor} (h : full.Alike [] c.ahead) : c = ⟨[], c.index⟩ := by
  obtain ⟨ahead, index⟩ := c
  obtain rfl : ahead = [] := List.head?_eq_none_iff.mp h.1.symm
  rfl

end Lookahead

/-- The tokens end with a closing brace. -/
def Closed (taken : List Token) : Prop :=
  taken.getLast? = some (.symbol .rightBrace)

theorem Closed.append {taken : List Token} (h : Closed taken) (first : List Token) :
    Closed (first ++ taken) := by
  rw [Closed, List.getLast?_append, h]
  rfl

theorem Closed.ne_nil {taken : List Token} (h : Closed taken) : taken ≠ [] := by
  rintro rfl
  cases h

theorem Closed.only_alike {γ : Type} {view : Option Token → γ} {taken : List Token}
    (h : Closed taken) (r s : List Token) :
    (Lookahead.only view).Alike (taken ++ r) (taken ++ s) := by
  cases taken with
  | nil => exact absurd rfl h.ne_nil
  | cons t taken => rfl

/-- Behind a closing brace all rests look alike. -/
theorem Closed.full_alike {taken : List Token} (h : Closed taken) (r s : List Token) :
    Lookahead.full.Alike (taken ++ r) (taken ++ s) := by
  match taken with
  | [] => cases h
  | [t] =>
    obtain rfl : t = .symbol .rightBrace := Option.some.inj h
    exact ⟨rfl, fun has => by cases has⟩
  | t :: u :: taken => exact ⟨rfl, fun _ => rfl⟩

variable {α β γ δ : Type} {L : Lookahead} {n m : Nat}

/-- The parser takes at least one token. -/
abbrev Progresses (p : Parser α) : Prop :=
  Takes p fun taken _ => taken ≠ []

/-- The parser takes at least one token unless it answers nothing. -/
abbrev ProgressesIfSome (p : Parser (Option α)) : Prop :=
  Takes p fun taken found => found.isSome → taken ≠ []

/-- The parser takes tokens up to a closing brace. -/
abbrev Closes (p : Parser α) : Prop :=
  Takes p fun taken _ => Closed taken

section Progress

variable {p : Parser α} {k : α → Parser β}

theorem Progresses.before (hp : Progresses p) (hk : ∀ a, Advances (k a)) : Progresses (p >>= k) :=
  hp.bind hk fun _ _ _ _ hfirst _ => List.append_ne_nil_of_left_ne_nil hfirst _

theorem Progresses.after (hp : Advances p) (hk : ∀ a, Progresses (k a)) : Progresses (p >>= k) :=
  Takes.after hp hk fun _ _ _ hsecond => List.append_ne_nil_of_right_ne_nil _ hsecond

theorem ProgressesIfSome.either {p : Parser (Option α)} {k : Option α → Parser β}
    (hp : ProgressesIfSome p) (hnone : Progresses (k none)) (hsome : ∀ a, Advances (k (some a))) :
    Progresses (p >>= k) := by
  intro c b c' h
  obtain ⟨⟨found, between⟩, hfirst, hsecond⟩ := bind_eq_ok.mp h
  obtain ⟨n, rfl, htaken⟩ := hp c found between hfirst
  cases found with
  | none =>
    obtain ⟨m, rfl, hne⟩ := hnone _ b c' hsecond
    refine ⟨n + m, c.skip_skip n m, ?_⟩
    rw [List.take_add]
    exact List.append_ne_nil_of_right_ne_nil _ hne
  | some a =>
    obtain ⟨m, rfl, _⟩ := hsome a _ b c' hsecond
    refine ⟨n + m, c.skip_skip n m, ?_⟩
    rw [List.take_add]
    exact List.append_ne_nil_of_left_ne_nil (htaken rfl) _

theorem Closes.progresses (h : Closes p) : Progresses p :=
  h.mono fun _ _ hclosed => hclosed.ne_nil

theorem Closes.after {Q : List Token → α → Prop} (hp : Takes p Q) (hk : ∀ a, Closes (k a)) :
    Closes (p >>= k) :=
  Takes.after hp hk fun first _ _ hclosed => hclosed.append first

theorem Closes.map (hp : Closes p) (f : α → β) : Closes (p >>= fun a => pure (f a)) := by
  refine hp.bind (R := fun _ taken _ => taken = []) (fun _ => takes_pure rfl) ?_
  rintro taken _ _ _ hclosed rfl
  rwa [List.append_nil]

end Progress

/-- What the one parser does at a place, the other does wherever the same tokens are ahead with a
rest that looks alike, up to `m` tokens altogether. The view tells what their answers have in
common. -/
def MirrorsAt (L : Lookahead) (m : Nat) (c : Cursor) (p q : Parser α) (view : α → γ) : Prop :=
  ∀ a c', p c = .ok (a, c') →
    ∃ taken, c.ahead = taken ++ c'.ahead ∧ .symbol .semicolon ∉ taken ∧
      ∀ d rest, L.Alike c'.ahead rest → d.ahead = taken ++ rest → d.ahead.length ≤ m →
        ∃ b d', q d = .ok (b, d') ∧ d'.ahead = rest ∧ view a = view b

/-- The second parser does what the first does, at all places with up to `n` tokens ahead. -/
def Mirrors (L : Lookahead) (n m : Nat) (p q : Parser α) (view : α → γ) : Prop :=
  ∀ c, c.ahead.length ≤ n → MirrorsAt L m c p q view

section Rules

variable {p q : Parser α} {k l : α → Parser β} {f : α → γ} {g : β → δ} {c : Cursor}

theorem mirrors_pure {a b : α} (h : f a = f b) : Mirrors L n m (pure a) (pure b) f := by
  intro c _ a' c' hp
  cases hp
  exact ⟨[], rfl, List.not_mem_nil, fun d rest _ hd _ => ⟨b, d, rfl, hd, h⟩⟩

theorem fail_ne_ok (expected : Expected) (c : Cursor) (result : α × Cursor) :
    fail expected c ≠ .ok result := by
  intro h
  obtain ⟨ahead, index⟩ := c
  cases ahead <;> cases h

theorem fail_bind (expected : Expected) (k : α → Parser β) :
    (fail expected >>= k) = fail expected := by
  funext c
  obtain ⟨ahead, index⟩ := c
  cases ahead <;> rfl

theorem mirrors_fail {expected : Expected} : Mirrors L n m (fail expected) q f :=
  fun c _ a c' hp => absurd hp (fail_ne_ok expected c (a, c'))

theorem Mirrors.mono {n' m' : Nat} (h : Mirrors L n m p q f) (hn : n' ≤ n) (hm : m' ≤ m) :
    Mirrors L n' m' p q f := by
  intro c hc a c' hp
  obtain ⟨taken, hahead, hsemi, hmirror⟩ := h c (Nat.le_trans hc hn) a c' hp
  exact ⟨taken, hahead, hsemi, fun d rest hrest hd hdm =>
    hmirror d rest hrest hd (Nat.le_trans hdm hm)⟩

/-- A parser may see more than it looks at. -/
theorem Mirrors.coarser {K : Lookahead} (h : Mirrors K n m p q f)
    (hK : ∀ r s, L.Alike r s → K.Alike r s) : Mirrors L n m p q f := by
  intro c hc a c' hp
  obtain ⟨taken, hahead, hsemi, hmirror⟩ := h c hc a c' hp
  exact ⟨taken, hahead, hsemi, fun d rest hrest => hmirror d rest (hK _ _ hrest)⟩

theorem Mirrors.of_nothing (h : Mirrors .nothing n m p q f) : Mirrors L n m p q f :=
  h.coarser fun _ _ _ => trivial

theorem Mirrors.less (h : Mirrors L n m p q f) : Mirrors L (n - 1) (m - 1) p q f :=
  h.mono (Nat.sub_le n 1) (Nat.sub_le m 1)

theorem bind_eq_of_eq_ok {a : α} {c' : Cursor} (h : p c = .ok (a, c')) :
    (p >>= k) c = k a c' := by
  have hbind : (p >>= k) c = (p c >>= fun x => k x.1 x.2) := rfl
  rw [hbind, h]
  rfl

theorem bind_congr_of_ok {k' : α → Parser β}
    (h : ∀ a c', p c = .ok (a, c') → k a c' = k' a c') : (p >>= k) c = (p >>= k') c := by
  have hbind : ∀ k : α → Parser β, (p >>= k) c = (p c >>= fun x => k x.1 x.2) := fun _ => rfl
  rw [hbind, hbind]
  cases hp : p c with
  | error fault => rfl
  | ok result => exact h result.1 result.2 hp

/-- What is known of the tokens that a parser takes holds for those it has left behind. -/
theorem Takes.of_ahead {Q : List Token → α → Prop} (h : Takes p Q) {c' : Cursor} {a : α}
    {taken : List Token} (hp : p c = .ok (a, c')) (hahead : c.ahead = taken ++ c'.ahead) :
    Q taken a := by
  obtain ⟨taken', hahead', hQ⟩ := h.exists_append hp
  rwa [List.append_cancel_right (hahead.symm.trans hahead')]

theorem Progresses.length_lt (h : Progresses p) {c' : Cursor} {a : α}
    (hp : p c = .ok (a, c')) : c'.ahead.length + 1 ≤ c.ahead.length := by
  obtain ⟨taken, hahead, hne⟩ := h.exists_append hp
  have hpos := List.length_pos_iff.mpr hne
  rw [hahead, List.length_append]
  omega

/-- One parser after another. What the first takes at least is not counted for the second, and the
tokens that the second takes may hide the rest from the first. -/
theorem MirrorsAt.bind (least : Nat) {K : Lookahead} (hp : MirrorsAt K m c p q f)
    (hk : ∀ a c', p c = .ok (a, c') → c'.ahead.length + least ≤ c.ahead.length ∧
      ∀ b, f a = f b → MirrorsAt L (m - least) c' (k a) (l b) g)
    (hK : ∀ a c' b c'' taken, k a c' = .ok (b, c'') → c'.ahead = taken ++ c''.ahead →
      ∀ r s, L.Alike r s → K.Alike (taken ++ r) (taken ++ s)) :
    MirrorsAt L m c (p >>= k) (q >>= l) g := by
  intro b c'' h
  obtain ⟨⟨a, c'⟩, hfirst, hsecond⟩ := bind_eq_ok.mp h
  obtain ⟨first, hahead, hsemi, hmirror⟩ := hp a c' hfirst
  obtain ⟨hleast, hk⟩ := hk a c' hfirst
  obtain ⟨second, hahead', hsemi', _⟩ := hk a rfl b c'' hsecond
  refine ⟨first ++ second, ?_, ?_, fun d rest hrest hd hdm => ?_⟩
  · rw [hahead, hahead', List.append_assoc]
  · rw [List.mem_append]
    exact fun hmem => hmem.elim hsemi hsemi'
  · rw [List.append_assoc] at hd
    have hseen : K.Alike c'.ahead (second ++ rest) :=
      hahead' ▸ hK a c' b c'' second hsecond hahead' c''.ahead rest hrest
    obtain ⟨a', e, hq, he, hview⟩ := hmirror d (second ++ rest) hseen hd hdm
    -- the second parser takes the same tokens, whichever of the answers it is given
    obtain ⟨second', hahead'', _, hmirror'⟩ := hk a' hview b c'' hsecond
    obtain rfl : second' = second := List.append_cancel_right (hahead''.symm.trans hahead')
    have hem : e.ahead.length ≤ m - least := by
      rw [hahead, List.length_append] at hleast
      rw [hd, List.length_append, ← he] at hdm
      omega
    obtain ⟨b', d', hl, hd', hview'⟩ := hmirror' e rest hrest he hem
    exact ⟨b', d', bind_eq_ok.mpr ⟨(a', e), hq, hl⟩, hd', hview'⟩

theorem Mirrors.bind (hp : Mirrors L n m p q f)
    (hk : ∀ a b, f a = f b → Mirrors L n m (k a) (l b) g) :
    Mirrors L n m (p >>= k) (q >>= l) g := by
  intro c hc
  refine .bind 0 (hp c hc) (fun a c' hfirst => ?_)
    fun _ _ _ _ taken _ _ r s h => L.append taken h
  have hle : c'.ahead.length ≤ c.ahead.length := by
    obtain ⟨taken, hahead, _⟩ := hp c hc a c' hfirst
    rw [hahead, List.length_append]
    exact Nat.le_add_left _ _
  exact ⟨hle, fun b h => hk a b h c' (Nat.le_trans hle hc)⟩

/-- What the second parser takes hides the rest from the first. -/
theorem Mirrors.hide {K : Lookahead} (hp : Mirrors K n m p q f)
    (hk : ∀ a b, f a = f b → Mirrors L n m (k a) (l b) g)
    (hhides : ∀ a, Takes (k a) fun taken _ => K.Hides taken) :
    Mirrors L n m (p >>= k) (q >>= l) g := by
  intro c hc
  refine .bind 0 (hp c hc) (fun a c' hfirst => ?_) fun a _ _ _ taken hsecond hahead r s _ =>
    (hhides a).of_ahead hsecond hahead r s
  have hle : c'.ahead.length ≤ c.ahead.length := by
    obtain ⟨taken, hahead, _⟩ := hp c hc a c' hfirst
    rw [hahead, List.length_append]
    exact Nat.le_add_left _ _
  exact ⟨hle, fun b h => hk a b h c' (Nat.le_trans hle hc)⟩

/-- The first parser takes a token. -/
theorem Mirrors.step (hp : Mirrors L n m p q f) (htaken : Progresses p)
    (hk : ∀ a b, f a = f b → Mirrors L (n - 1) (m - 1) (k a) (l b) g) :
    Mirrors L n m (p >>= k) (q >>= l) g := by
  intro c hc
  refine .bind 1 (hp c hc) (fun a c' hfirst => ?_)
    fun _ _ _ _ taken _ _ r s h => L.append taken h
  have hlt := htaken.length_lt hfirst
  exact ⟨hlt, fun b h => hk a b h c' (by omega)⟩

/-- The second parser takes tokens up to a closing brace, so the first does not see the rest. -/
theorem Mirrors.close {K : Lookahead} (least : Nat) (hp : Mirrors K n m p q f)
    (hleast : Takes p fun taken _ => least ≤ taken.length)
    (hk : ∀ a b, f a = f b → Mirrors .nothing (n - least) (m - least) (k a) (l b) g)
    (hclosed : ∀ a, Closes (k a))
    (hK : ∀ {taken}, Closed taken → ∀ r s, K.Alike (taken ++ r) (taken ++ s)) :
    Mirrors .nothing n m (p >>= k) (q >>= l) g := by
  intro c hc
  refine .bind least (hp c hc) (fun a c' hfirst => ?_) fun a _ _ _ taken hsecond hahead r s _ =>
    hK ((hclosed a).of_ahead hsecond hahead) r s
  obtain ⟨taken, hahead, hlength⟩ := hleast.exists_append hfirst
  have hle : c'.ahead.length + least ≤ c.ahead.length := by
    rw [hahead, List.length_append]
    omega
  exact ⟨hle, fun b h => hk a b h c' (by omega)⟩

/-- The tokens that are taken do not depend on where the second parser stands. -/
theorem MirrorsAt.everywhere {q : Nat → Parser α} (h : ∀ m, MirrorsAt L m c p (q m) f)
    {a : α} {c' : Cursor} (hp : p c = .ok (a, c')) :
    ∃ taken, c.ahead = taken ++ c'.ahead ∧ .symbol .semicolon ∉ taken ∧
      ∀ d rest, L.Alike c'.ahead rest → d.ahead = taken ++ rest →
        ∃ b d', q d.ahead.length d = .ok (b, d') ∧ d'.ahead = rest ∧ f a = f b := by
  obtain ⟨taken, hahead, hsemi, _⟩ := h 0 a c' hp
  refine ⟨taken, hahead, hsemi, fun d rest hrest hd => ?_⟩
  obtain ⟨taken', hahead', _, hmirror⟩ := h d.ahead.length a c' hp
  obtain rfl : taken' = taken := List.append_cancel_right (hahead'.symm.trans hahead)
  exact hmirror d rest hrest hd (Nat.le_refl _)

/-- What is counted is counted anew. -/
theorem mirrors_remaining {k l : Nat → Parser β} (h : ∀ n m, Mirrors L n m (k n) (l m) g) :
    Mirrors L n m (remaining >>= k) (remaining >>= l) g := by
  intro c _ a c' hp
  obtain ⟨taken, hahead, hsemi, hmirror⟩ :=
    MirrorsAt.everywhere (fun m => h c.ahead.length m c (Nat.le_refl _)) hp
  exact ⟨taken, hahead, hsemi, fun d rest hrest hd _ => hmirror d rest hrest hd⟩

/-- At the end of the tokens nothing is left to count. -/
theorem Mirrors.exhausted {q' : Parser α} (h : Mirrors L n 1 p q f)
    (hq : ∀ i result, q ⟨[], i⟩ = .ok result → q' ⟨[], i⟩ = .ok result) :
    Mirrors L n 0 p q' f := by
  intro c hc a c' hp
  obtain ⟨taken, hahead, hsemi, hmirror⟩ := h c hc a c' hp
  refine ⟨taken, hahead, hsemi, fun d rest hrest hd hdm => ?_⟩
  obtain ⟨b, d', hanswer, hd', hview⟩ := hmirror d rest hrest hd (Nat.le_succ_of_le hdm)
  obtain ⟨ahead, index⟩ := d
  obtain rfl : ahead = [] := List.eq_nil_of_length_eq_zero (Nat.le_zero.mp hdm)
  exact ⟨b, d', hq index _ hanswer, hd', hview⟩

/-- The second parser stops where it sees no more than at the end of the tokens. -/
theorem mirrors_end {a b : α} (hq : ∀ d, L.Alike [] d.ahead → q d = .ok (b, d))
    (hab : f a = f b) : Mirrors L 0 m (pure a) q f := by
  intro c hc a' c' hp
  cases hp
  refine ⟨[], rfl, List.not_mem_nil, fun d rest hrest hd _ => ⟨b, d, hq d ?_, hd, hab⟩⟩
  rw [List.eq_nil_of_length_eq_zero (Nat.le_zero.mp hc)] at hrest
  rwa [hd]

theorem attempt_bind (p : Parser α) (k : Option α → Parser β) (c : Cursor) :
    (attempt p >>= k) c = match p c with
      | .ok (a, c') => k (some a) c'
      | .error _ => k none c := by
  have h : (attempt p >>= k) c = (attempt p c >>= fun x => k x.1 x.2) := rfl
  rw [h, attempt]
  cases p c <;> rfl

/-- A parser that may fail, where the answer is needed. -/
theorem Mirrors.attempt {k l : Option α → Parser β} {expected : Expected}
    (h : Mirrors L n m (p >>= fun a => k (some a)) (q >>= fun b => l (some b)) g)
    (hnone : k none = fail expected) : Mirrors L n m (attempt p >>= k) (attempt q >>= l) g := by
  intro c hc b c' hp
  have hsome : (p >>= fun a => k (some a)) c = .ok (b, c') := by
    rw [attempt_bind] at hp
    split at hp
    · rename_i hanswer
      exact bind_eq_ok.mpr ⟨_, hanswer, hp⟩
    · rw [hnone] at hp
      exact absurd hp (fail_ne_ok expected c _)
  obtain ⟨taken, hahead, hsemi, hmirror⟩ := h c hc b c' hsome
  refine ⟨taken, hahead, hsemi, fun d rest hrest hd hdm => ?_⟩
  obtain ⟨b', d', hq, hd', hview⟩ := hmirror d rest hrest hd hdm
  refine ⟨b', d', ?_, hd', hview⟩
  obtain ⟨⟨a, e⟩, hfirst, hsecond⟩ := bind_eq_ok.mp hq
  rw [attempt_bind, hfirst]
  exact hsecond

end Rules

/-! ### One token -/

theorem eatToken_eq (t : Token) (c : Cursor) : eatToken t c =
    if c.ahead.head? = some t then .ok (some (.single c.index), ⟨c.ahead.tail, c.index + 1⟩)
    else .ok (none, c) := by
  have h : eatToken t c =
      (if c.ahead.head? == some t then (do return some (← advance) : Parser _)
        else return none) c :=
    rfl
  rw [h]
  by_cases hnext : c.ahead.head? = some t
  · rw [if_pos (by simpa using hnext), if_pos hnext]
    rfl
  · rw [if_neg (by simpa using hnext), if_neg hnext]
    rfl

theorem eat_of_head {s : Symbol} {c : Cursor} {rest : List Token}
    (h : c.ahead = .symbol s :: rest) :
    eat s c = .ok (some (.single c.index), ⟨rest, c.index + 1⟩) := by
  rw [eat, eatToken_eq, h, if_pos (List.head?_cons ..), List.tail_cons]

theorem eat_of_not_head {s : Symbol} {c : Cursor} (h : c.ahead.head? ≠ some (.symbol s)) :
    eat s c = .ok (none, c) := by
  rw [eat, eatToken_eq, if_neg h]

theorem peek_eq (c : Cursor) : peek c = .ok (c.ahead.head?, c) :=
  rfl

theorem eat_nil (s : Symbol) (i : Nat) : eat s (⟨[], i⟩ : Cursor) = .ok (none, ⟨[], i⟩) :=
  rfl

theorem word?_of_head {name : Name} {c : Cursor} {rest : List Token}
    (h : c.ahead = .word name :: rest) :
    word? c = .ok (some ⟨name, .single c.index⟩, ⟨rest, c.index + 1⟩) := by
  obtain ⟨ahead, index⟩ := c
  obtain rfl : ahead = .word name :: rest := h
  rfl

theorem word?_of_not_head {c : Cursor} (h : ∀ name, c.ahead.head? ≠ some (.word name)) :
    word? c = .ok (none, c) := by
  obtain ⟨ahead, index⟩ := c
  cases ahead with
  | nil => rfl
  | cons t rest =>
    cases t with
    | word name => exact absurd rfl (h name)
    | _ => rfl

theorem takes_just_word : Takes word fun taken w => taken = [.word w.val] := by
  intro c w c' h
  by_cases hnext : ∃ name, c.ahead.head? = some (.word name)
  · obtain ⟨name, hname⟩ := hnext
    obtain ⟨rest, ht⟩ := List.head?_eq_some_iff.mp hname
    rw [word, bind_eq_of_eq_ok (word?_of_head ht)] at h
    cases h
    exact ⟨1, (Cursor.skip_one_of_cons ht).symm, by rw [ht]; rfl⟩
  · rw [word, bind_eq_of_eq_ok (word?_of_not_head (not_exists.mp hnext))] at h
    exact absurd h (fail_ne_ok _ c _)

theorem progresses_word : Progresses word :=
  .mono takes_word fun _ _ hmem => List.ne_nil_of_mem hmem

theorem progressesIfSome_word? : ProgressesIfSome word? := by
  refine .mono takes_word? fun taken found hmem hsome => ?_
  obtain ⟨name, hname⟩ := Option.isSome_iff_exists.mp hsome
  exact List.ne_nil_of_mem (hmem name hname)

theorem takes_eat (s : Symbol) : Takes (eat s) fun taken found =>
    taken = if found.isSome then [.symbol s] else [] := by
  intro c found c' h
  by_cases hnext : c.ahead.head? = some (.symbol s)
  · obtain ⟨rest, ht⟩ := List.head?_eq_some_iff.mp hnext
    cases (eat_of_head ht).symm.trans h
    exact ⟨1, (Cursor.skip_one_of_cons ht).symm, by rw [ht]; rfl⟩
  · cases (eat_of_not_head hnext).symm.trans h
    exact ⟨0, rfl, rfl⟩

theorem takes_just_expect (s : Symbol) (expected : Expected) :
    Takes (expect s expected) fun taken _ => taken = [.symbol s] := by
  refine (takes_eat s).bind (R := fun found taken _ => found.isSome ∧ taken = [])
    (fun found => ?_) ?_
  · cases found with
    | none => exact takes_fail expected
    | some r => exact takes_pure ⟨rfl, rfl⟩
  · rintro _ found _ _ rfl ⟨hsome, rfl⟩
    rw [if_pos hsome, List.append_nil]

theorem progressesIfSome_eat (s : Symbol) : ProgressesIfSome (eat s) := by
  refine (takes_eat s).mono fun taken found htaken hsome => ?_
  rw [htaken, if_pos hsome]
  exact List.cons_ne_nil _ _

theorem progresses_expect (s : Symbol) (expected : Expected) : Progresses (expect s expected) :=
  (progressesIfSome_eat s).either (takes_fail expected) fun _ => takes_pure trivial

theorem progressesIfSome_attempt {p : Parser α} (hp : Progresses p) :
    ProgressesIfSome (attempt p) := by
  intro c found c' h
  rw [attempt] at h
  split at h
  · rename_i hanswer
    cases h
    obtain ⟨n, hskip, hne⟩ := hp _ _ _ hanswer
    exact ⟨n, hskip, fun _ => hne⟩
  · cases h
    exact ⟨0, rfl, fun hsome => by cases hsome⟩

section OneToken

variable {p q p' : Parser β} {g : β → δ} {c : Cursor} {t : Token} {rest : List Token} {s : Symbol}

/-- Both parsers take nothing, and go on with others. -/
theorem mirrorsAt_look {q' : Parser β} (hp : p c = p' c) (h : MirrorsAt L m c p' q' g)
    (hq : ∀ d, L.Alike c.ahead d.ahead → q d = q' d) : MirrorsAt L m c p q g := by
  intro b c' hanswer
  rw [hp] at hanswer
  obtain ⟨taken, hahead, hnot, hmirror⟩ := h b c' hanswer
  refine ⟨taken, hahead, hnot, fun d rest hrest hd hdm => ?_⟩
  rw [hq d (hahead ▸ hd ▸ L.append taken hrest)]
  exact hmirror d rest hrest hd hdm

/-- Both parsers take nothing, and go on with others that take the next token. -/
theorem mirrorsAt_look_taken {q' : Parser β} (hp : p c = p' c) (hprogress : Progresses p')
    (h : MirrorsAt L m c p' q' g) (hq : ∀ d, d.ahead.head? = c.ahead.head? → q d = q' d) :
    MirrorsAt L m c p q g := by
  intro b c' hanswer
  rw [hp] at hanswer
  obtain ⟨taken, hahead, hnot, hmirror⟩ := h b c' hanswer
  refine ⟨taken, hahead, hnot, fun d rest hrest hd hdm => ?_⟩
  have hne : taken ≠ [] := hprogress.of_ahead hanswer hahead
  have hnext : d.ahead.head? = c.ahead.head? := by
    rw [hd, hahead, List.head?_append_of_ne_nil _ hne, List.head?_append_of_ne_nil _ hne]
  rw [hq d hnext]
  exact hmirror d rest hrest hd hdm

/-- Both parsers take a token that is no semicolon, and go on with others. -/
theorem mirrorsAt_cons {q' : TokenRange → Parser β} (ht : c.ahead = t :: rest)
    (hsemi : t ≠ .symbol .semicolon) (hp : p c = p' ⟨rest, c.index + 1⟩)
    (h : ∀ r, MirrorsAt L (m - 1) ⟨rest, c.index + 1⟩ p' (q' r) g)
    (hq : ∀ d rest', d.ahead = t :: rest' → q d = q' (.single d.index) ⟨rest', d.index + 1⟩) :
    MirrorsAt L m c p q g := by
  intro b c' hanswer
  rw [hp] at hanswer
  obtain ⟨taken, hahead, hnot, _⟩ := h (.single 0) b c' hanswer
  refine ⟨t :: taken, ?_, ?_, fun d rest' hrest hd hdm => ?_⟩
  · rw [ht, List.cons_append, ← hahead]
  · rw [List.mem_cons]
    exact fun hmem => hmem.elim hsemi.symm hnot
  · rw [hq d (taken ++ rest') hd]
    obtain ⟨taken', hahead', _, hmirror⟩ := h (.single d.index) b c' hanswer
    obtain rfl : taken' = taken := List.append_cancel_right (hahead'.symm.trans hahead)
    refine hmirror _ rest' hrest rfl ?_
    rw [hd, List.cons_append, List.length_cons] at hdm
    exact Nat.le_sub_one_of_lt hdm

theorem length_le_sub_one (ht : c.ahead = t :: rest) (hc : c.ahead.length ≤ n) :
    rest.length ≤ n - 1 := by
  rw [ht, List.length_cons] at hc
  exact Nat.le_sub_one_of_lt hc

theorem mirrorsAt_advance {k l : TokenRange → Parser β} (ht : c.ahead = t :: rest)
    (hc : c.ahead.length ≤ n) (hsemi : t ≠ .symbol .semicolon)
    (hk : ∀ r r', Mirrors L (n - 1) (m - 1) (k r) (l r') g) :
    MirrorsAt L m c (advance >>= k) (advance >>= l) g := by
  refine mirrorsAt_cons ht hsemi ?_
    (fun r => hk (.single c.index) r _ (length_le_sub_one ht hc)) fun d rest' hd => ?_
  · obtain ⟨ahead, index⟩ := c
    obtain rfl : ahead = t :: rest := ht
    rfl
  · obtain ⟨ahead, index⟩ := d
    obtain rfl : ahead = t :: rest' := hd
    rfl

theorem mirrorsAt_eat {k l : Option TokenRange → Parser β} (ht : c.ahead = .symbol s :: rest)
    (hc : c.ahead.length ≤ n) (hs : s ≠ .semicolon)
    (hsome : ∀ r r', Mirrors L (n - 1) (m - 1) (k (some r)) (l (some r')) g) :
    MirrorsAt L m c (eat s >>= k) (eat s >>= l) g := by
  refine mirrorsAt_cons ht (fun h => hs (Token.symbol.inj h)) ?_
    (fun r => hsome (.single c.index) r _ (length_le_sub_one ht hc)) fun d rest' hd => ?_
  · exact bind_eq_of_eq_ok (eat_of_head ht)
  · exact bind_eq_of_eq_ok (eat_of_head hd)

/-- A symbol that may be next. -/
theorem Mirrors.eat_of_tells {k l : Option TokenRange → Parser β} (hL : L.Tells (.symbol s))
    (hs : s ≠ .semicolon) (hnone : Mirrors L n m (k none) (l none) g)
    (hsome : ∀ r r', Mirrors L (n - 1) (m - 1) (k (some r)) (l (some r')) g) :
    Mirrors L n m (eat s >>= k) (eat s >>= l) g := by
  intro c hc
  by_cases hnext : c.ahead.head? = some (.symbol s)
  · obtain ⟨rest, ht⟩ := List.head?_eq_some_iff.mp hnext
    exact mirrorsAt_eat ht hc hs hsome
  · refine mirrorsAt_look (bind_eq_of_eq_ok (eat_of_not_head hnext)) (hnone c hc) fun d hd => ?_
    exact bind_eq_of_eq_ok (eat_of_not_head (mt (hL _ _ hd).mpr hnext))

/-- A symbol that may be next, and the next token is taken in any case. -/
theorem Mirrors.eat_taken {k l : Option TokenRange → Parser β} (hs : s ≠ .semicolon)
    (hnone : Mirrors L n m (k none) (l none) g) (hprogress : Progresses (k none))
    (hsome : ∀ r r', Mirrors L (n - 1) (m - 1) (k (some r)) (l (some r')) g) :
    Mirrors L n m (eat s >>= k) (eat s >>= l) g := by
  intro c hc
  by_cases hnext : c.ahead.head? = some (.symbol s)
  · obtain ⟨rest, ht⟩ := List.head?_eq_some_iff.mp hnext
    exact mirrorsAt_eat ht hc hs hsome
  · refine mirrorsAt_look_taken (bind_eq_of_eq_ok (eat_of_not_head hnext)) hprogress (hnone c hc)
      fun d hd => ?_
    exact bind_eq_of_eq_ok (eat_of_not_head (hd ▸ hnext))

theorem Mirrors.eat {k l : Option TokenRange → Parser β} (hs : s ≠ .semicolon)
    (hnone : Mirrors .full n m (k none) (l none) g)
    (hsome : ∀ r r', Mirrors .full (n - 1) (m - 1) (k (some r)) (l (some r')) g) :
    Mirrors .full n m (eat s >>= k) (eat s >>= l) g :=
  .eat_of_tells (Lookahead.full_tells _) hs hnone hsome

theorem mirrors_eat (hs : s ≠ .semicolon) :
    Mirrors .full n m (eat s) (eat s) Option.isSome := by
  rw [← bind_pure (Parser.eat s)]
  exact .eat hs (mirrors_pure rfl) fun _ _ => mirrors_pure rfl

/-- A symbol that has to be next. -/
theorem Mirrors.expect {k l : TokenRange → Parser β} {expected : Expected} (hs : s ≠ .semicolon)
    (hk : ∀ r r', Mirrors L (n - 1) (m - 1) (k r) (l r') g) :
    Mirrors L n m (expect s expected >>= k) (expect s expected >>= l) g := by
  intro c hc
  by_cases hnext : c.ahead.head? = some (.symbol s)
  · obtain ⟨rest, ht⟩ := List.head?_eq_some_iff.mp hnext
    refine mirrorsAt_cons ht (fun h => hs (Token.symbol.inj h)) ?_
      (fun r => hk (.single c.index) r _ (length_le_sub_one ht hc)) fun d rest' hd => ?_
    · exact bind_eq_of_eq_ok (bind_eq_of_eq_ok (eat_of_head ht))
    · exact bind_eq_of_eq_ok (bind_eq_of_eq_ok (eat_of_head hd))
  · intro b c' hp
    obtain ⟨_, hexpect, _⟩ := bind_eq_ok.mp hp
    rw [Parser.expect, bind_eq_of_eq_ok (eat_of_not_head hnext)] at hexpect
    exact absurd hexpect (fail_ne_ok expected c _)

/-- It may matter whether a symbol is next. -/
theorem Mirrors.sees {k l : Bool → Parser β} (hL : L.Tells (.symbol s))
    (hk : ∀ seen, Mirrors L n m (k seen) (l seen) g) :
    Mirrors L n m (sees s >>= k) (sees s >>= l) g := by
  intro c hc
  have hlook : (Parser.sees s >>= k) c = k (c.ahead.head? == some (.symbol s)) c := rfl
  refine mirrorsAt_look hlook (hk _ c hc) fun d hd => ?_
  have hseen : (d.ahead.head? == some (.symbol s)) = (c.ahead.head? == some (.symbol s)) :=
    Bool.eq_iff_iff.mpr (by simpa using (hL _ _ hd).symm)
  exact congrArg (fun seen => l seen d) hseen

/-- It may matter whether a symbol is next, and the next token is taken. -/
theorem Mirrors.sees_taken {k l : Bool → Parser β}
    (hk : ∀ seen, Mirrors L n m (k seen) (l seen) g) (hprogress : ∀ seen, Progresses (k seen)) :
    Mirrors L n m (Parser.sees s >>= k) (Parser.sees s >>= l) g := by
  intro c hc
  have hlook : (Parser.sees s >>= k) c = k (c.ahead.head? == some (.symbol s)) c := rfl
  refine mirrorsAt_look_taken hlook (hprogress _) (hk _ c hc) fun d hd => ?_
  exact congrArg (fun next => l (next == some (.symbol s)) d) hd

theorem mirrorsAt_word? {k l : Option (Located TokenRange Name) → Parser β} {name : Name}
    (ht : c.ahead = .word name :: rest) (hc : c.ahead.length ≤ n)
    (hsome : ∀ w w' : Located TokenRange Name, w.move nowhere = w'.move nowhere →
      Mirrors L (n - 1) (m - 1) (k (some w)) (l (some w')) g) :
    MirrorsAt L m c (word? >>= k) (word? >>= l) g := by
  refine mirrorsAt_cons ht Token.noConfusion ?_ (fun r =>
    hsome ⟨name, .single c.index⟩ ⟨name, r⟩ rfl _ (length_le_sub_one ht hc)) fun d rest' hd => ?_
  · exact bind_eq_of_eq_ok (word?_of_head ht)
  · exact bind_eq_of_eq_ok (word?_of_head hd)

/-- A word that may be next. -/
theorem Mirrors.word? {k l : Option (Located TokenRange Name) → Parser β}
    (hnone : Mirrors .full n m (k none) (l none) g)
    (hsome : ∀ w w' : Located TokenRange Name, w.move nowhere = w'.move nowhere →
      Mirrors .full (n - 1) (m - 1) (k (some w)) (l (some w')) g) :
    Mirrors .full n m (word? >>= k) (word? >>= l) g := by
  intro c hc
  by_cases hnext : ∃ name, c.ahead.head? = some (.word name)
  · obtain ⟨name, hname⟩ := hnext
    obtain ⟨rest, ht⟩ := List.head?_eq_some_iff.mp hname
    exact mirrorsAt_word? ht hc hsome
  · have hnot := not_exists.mp hnext
    refine mirrorsAt_look (bind_eq_of_eq_ok (word?_of_not_head hnot)) (hnone c hc) fun d hd => ?_
    exact bind_eq_of_eq_ok (word?_of_not_head (hd.1 ▸ hnot))

/-- A word that may be next, and the next token is taken in any case. -/
theorem Mirrors.word?_taken {k l : Option (Located TokenRange Name) → Parser β}
    (hnone : Mirrors L n m (k none) (l none) g) (hprogress : Progresses (k none))
    (hsome : ∀ w w' : Located TokenRange Name, w.move nowhere = w'.move nowhere →
      Mirrors L (n - 1) (m - 1) (k (some w)) (l (some w')) g) :
    Mirrors L n m (Parser.word? >>= k) (Parser.word? >>= l) g := by
  intro c hc
  by_cases hnext : ∃ name, c.ahead.head? = some (.word name)
  · obtain ⟨name, hname⟩ := hnext
    obtain ⟨rest, ht⟩ := List.head?_eq_some_iff.mp hname
    exact mirrorsAt_word? ht hc hsome
  · have hnot := not_exists.mp hnext
    refine mirrorsAt_look_taken (bind_eq_of_eq_ok (word?_of_not_head hnot)) hprogress (hnone c hc)
      fun d hd => ?_
    exact bind_eq_of_eq_ok (word?_of_not_head (hd ▸ hnot))

theorem mirrors_word? : Mirrors .full n m Parser.word? Parser.word?
    (Option.map (Located.move nowhere)) := by
  rw [← bind_pure Parser.word?]
  exact .word? (mirrors_pure rfl) fun _ _ hw => mirrors_pure (congrArg some hw)

/-- A word that has to be next. -/
theorem Mirrors.word {k l : Located TokenRange Name → Parser β}
    (hk : ∀ w w' : Located TokenRange Name, w.move nowhere = w'.move nowhere →
      Mirrors L (n - 1) (m - 1) (k w) (l w') g) :
    Mirrors L n m (word >>= k) (word >>= l) g := by
  intro c hc
  by_cases hnext : ∃ name, c.ahead.head? = some (.word name)
  · obtain ⟨name, hname⟩ := hnext
    obtain ⟨rest, ht⟩ := List.head?_eq_some_iff.mp hname
    refine mirrorsAt_cons ht Token.noConfusion ?_ (fun r =>
      hk ⟨name, .single c.index⟩ ⟨name, r⟩ rfl _ (length_le_sub_one ht hc)) fun d rest' hd => ?_
    · exact bind_eq_of_eq_ok (bind_eq_of_eq_ok (word?_of_head ht))
    · exact bind_eq_of_eq_ok (bind_eq_of_eq_ok (word?_of_head hd))
  · intro b c' hp
    obtain ⟨_, hword, _⟩ := bind_eq_ok.mp hp
    rw [Parser.word, bind_eq_of_eq_ok (word?_of_not_head (not_exists.mp hnext))] at hword
    exact absurd hword (fail_ne_ok _ c _)

/-- What is done depends on the next token. -/
theorem Mirrors.peek {k l : Option Token → Parser β} (h : ∀ c, c.ahead.length ≤ n →
      MirrorsAt .full m c (k c.ahead.head?) (l c.ahead.head?) g) :
    Mirrors .full n m (peek >>= k) (peek >>= l) g := by
  intro c hc
  have hlook : (Parser.peek >>= k) c = k c.ahead.head? c := rfl
  refine mirrorsAt_look hlook (h c hc) fun d hd => ?_
  exact congrArg (fun next => l next d) hd.1.symm

/-- What is done depends on the next token, which is taken. -/
theorem Mirrors.peek_taken {k l : Option Token → Parser β} (h : ∀ c, c.ahead.length ≤ n →
      MirrorsAt L m c (k c.ahead.head?) (l c.ahead.head?) g)
    (hprogress : ∀ next, Progresses (k next)) :
    Mirrors L n m (Parser.peek >>= k) (Parser.peek >>= l) g := by
  intro c hc
  have hlook : (Parser.peek >>= k) c = k c.ahead.head? c := rfl
  refine mirrorsAt_look_taken hlook (hprogress _) (h c hc) fun d hd => ?_
  exact congrArg (fun next => l next d) hd

/-- What is done depends on the token after the next one, and the next one is taken. -/
theorem Mirrors.peekSecond {k l : Option Token → Parser β} (h : ∀ c, c.ahead.length ≤ n →
      MirrorsAt .full m c (k c.ahead.tail.head?) (l c.ahead.tail.head?) g)
    (hk : ∀ next, Progresses (k next)) :
    Mirrors .full n m (peekSecond >>= k) (peekSecond >>= l) g := by
  intro c hc b c' hp
  obtain ⟨taken, hahead, hnot, hmirror⟩ := h c hc b c' hp
  refine ⟨taken, hahead, hnot, fun d rest hrest hd hdm => ?_⟩
  have hsecond : d.ahead.tail.head? = c.ahead.tail.head? := by
    have hne : taken ≠ [] := (hk _).of_ahead hp hahead
    rw [hd, hahead]
    match taken with
    | [] => exact absurd rfl hne
    | [t] => exact hrest.1.symm
    | t :: u :: taken => rfl
  obtain ⟨b', d', hanswer, hd', hview⟩ := hmirror d rest hrest hd hdm
  exact ⟨b', d', by rw [← hanswer, ← hsecond]; rfl, hd', hview⟩

end OneToken

end Parser

end Projection
