import Projection.Proofs.Source.Parts
import Projection.Proofs.Source.Taking

/-!
# Where the parts of a source are read

`Parser.Locates tokens start p Q` says what the parser `p` answers when it is started at the token
with the number `start`: it stops at a later token `stop`, and `Q stop` holds for the answer. The
rules of this module go through a parser from its first token to its last, with the number of the
next token at hand.

So every part of a source is found among the tokens at the numbers that its position gives
(`Part.IsAmong`), and the items of a body stand in a row between its braces, each with its own body
behind it (`Item.Row`).
-/

namespace Projection

namespace TokenRange

/-- The range is one of the tokens from `lo` up to, not including, `hi`. -/
structure Within (lo hi : Nat) (r : TokenRange) : Prop where
  first : lo ≤ r.first
  ordered : r.first ≤ r.last
  last : r.last < hi

section Within

variable {lo mid hi lo' hi' : Nat} {r : TokenRange}

theorem Within.mono (h : r.Within lo hi) (hlo : lo' ≤ lo) (hhi : hi ≤ hi') : r.Within lo' hi' :=
  ⟨Nat.le_trans hlo h.first, h.ordered, Nat.lt_of_lt_of_le h.last hhi⟩

theorem within_single (hlo : lo ≤ mid) (hhi : mid < hi) : (single mid).Within lo hi :=
  ⟨hlo, Nat.le_refl _, hhi⟩

theorem Within.lt (h : r.Within lo hi) : lo < hi :=
  Nat.lt_of_le_of_lt (Nat.le_trans h.first h.ordered) h.last

end Within

/-- The range is made of the tokens from `lo` up to, not including, `hi`. -/
structure Covers (lo hi : Nat) (r : TokenRange) : Prop where
  first : r.first = lo
  last : r.last + 1 = hi

theorem covers_single (i : Nat) : (single i).Covers i (i + 1) :=
  ⟨rfl, rfl⟩

theorem Covers.upTo {lo mid lo' hi : Nat} {r s : TokenRange} (hr : r.Covers lo mid)
    (hs : s.Covers lo' hi) : (r.upTo s).Covers lo hi :=
  ⟨hr.first, hs.last⟩

theorem Covers.within {lo hi : Nat} {r : TokenRange} (h : r.Covers lo hi) (hlt : lo < hi) :
    r.Within lo hi := by
  obtain ⟨hfirst, hlast⟩ := h
  exact ⟨by omega, by omega, by omega⟩

/-- The range is one token, and this one. -/
def IsAt (tokens : List Token) (t : Token) (r : TokenRange) : Prop :=
  r.first = r.last ∧ tokens[r.first]? = some t

/-- The range starts with one token and ends with another. -/
def Runs (tokens : List Token) (t u : Token) (r : TokenRange) : Prop :=
  r.first < r.last ∧ tokens[r.first]? = some t ∧ tokens[r.last]? = some u

end TokenRange

/-! ### Parts among tokens -/

namespace Item

/-- The item stands from `lo` up to `hi`, with its body behind it. -/
def Lies (lo hi : Nat) (item : Item TokenRange) : Prop :=
  ∃ mid, mid ≤ hi ∧ item.front.Within lo mid ∧ item.back.Within lo mid ∧
    ∀ extent, item.extent? = some extent → extent.Within mid hi

/-- The items stand from `lo` up to `hi`, one behind the other. -/
inductive Row (hi : Nat) : Nat → List (Item TokenRange) → Prop
  | nil {lo : Nat} : lo ≤ hi → Row hi lo []
  | cons {lo mid : Nat} {item : Item TokenRange} {items : List (Item TokenRange)} :
      item.Lies lo mid → Row hi mid items → Row hi lo (item :: items)

variable {lo hi : Nat} {item : Item TokenRange}

theorem Lies.lt (h : item.Lies lo hi) : lo < hi := by
  obtain ⟨mid, hmid, hfront, _, _⟩ := h
  exact Nat.lt_of_lt_of_le hfront.lt hmid

theorem Row.le {items : List (Item TokenRange)} (h : Row hi lo items) : lo ≤ hi := by
  induction h with
  | nil hle => exact hle
  | cons hitem _ ih => exact Nat.le_trans (Nat.le_of_lt hitem.lt) ih

/-- An item without a body. -/
theorem lies_of_extent_none (hfront : item.front.Within lo hi) (hback : item.back.Within lo hi)
    (h : item.extent? = none) : item.Lies lo hi := by
  refine ⟨hi, Nat.le_refl hi, hfront, hback, fun extent hextent => ?_⟩
  rw [h] at hextent
  cases hextent

theorem Lies.mono {lo' hi' : Nat} (h : item.Lies lo hi) (hlo : lo' ≤ lo) (hhi : hi ≤ hi') :
    item.Lies lo' hi' := by
  obtain ⟨mid, hmid, hfront, hback, hextent⟩ := h
  refine ⟨mid, Nat.le_trans hmid hhi, ?_, ?_, fun extent he => ?_⟩
  · exact hfront.mono hlo (Nat.le_refl mid)
  · exact hback.mono hlo (Nat.le_refl mid)
  · exact (hextent extent he).mono (Nat.le_refl mid) hhi

end Item

/-- The part is found among the tokens at the numbers that its position gives. -/
def Part.IsAmong (tokens : List Token) : Part TokenRange → Prop
  | name w => w.pos.IsAt tokens (.word w.val)
  | bundle w => w.pos.Runs tokens (.symbol .hash) (.word w.val)
  | modifier m => m.pos.IsAt tokens (.word m.val.text)
  | pattern p => p.pos.Runs tokens (.keyword .asWord) (.symbol .rightParen) ∧
      (.word p.val.replacement ∈ tokens ∨
        p.val.replacement = "" ∧ p.val.sought ≠ "" ∧ p.val.atStart ≠ p.val.atEnd)
  | body b => b.extent.Runs tokens (.symbol .leftBrace) (.symbol .rightBrace) ∧
      Item.Row b.extent.last (b.extent.first + 1) b.items

theorem Modifier.text_of_ofWord? {word : String} {m : Modifier} (h : ofWord? word = some m) :
    m.text = word := by
  unfold ofWord? at h
  split at h
  · rename_i hword
    cases h
    exact (eq_of_beq hword).symm
  · split at h
    · rename_i hword
      cases h
      exact (eq_of_beq hword).symm
    · split at h
      · rename_i hword
        cases h
        exact (eq_of_beq hword).symm
      · obtain ⟨s, hs, rfl⟩ := Option.map_eq_some_iff.mp h
        have hword := List.find?_some hs
        exact eq_of_beq hword

namespace Parser

variable {α β : Type}

/-- Started at the token `start`, the parser stops at a later one, and this one and the answer have
the property. -/
def Locates (tokens : List Token) (start : Nat) (p : Parser α) (Q : Nat → α → Prop) : Prop :=
  ∀ a c', p ⟨tokens.drop start, start⟩ = .ok (a, c') →
    ∃ stop, start ≤ stop ∧ c' = ⟨tokens.drop stop, stop⟩ ∧ Q stop a

variable {tokens : List Token} {start : Nat}

section Rules

variable {p : Parser α} {k : α → Parser β} {Q Q' : Nat → α → Prop} {R : Nat → β → Prop}

theorem Locates.mono (h : Locates tokens start p Q)
    (hQ : ∀ stop a, start ≤ stop → Q stop a → Q' stop a) : Locates tokens start p Q' := by
  intro a c' hp
  obtain ⟨stop, hle, hc', hq⟩ := h a c' hp
  exact ⟨stop, hle, hc', hQ stop a hle hq⟩

theorem locates_pure {a : α} (h : Q start a) : Locates tokens start (pure a) Q := by
  intro a' c' hp
  cases hp
  exact ⟨start, Nat.le_refl start, rfl, h⟩

theorem locates_throw (fault : SyntaxFault TokenRange) :
    Locates tokens start (throw fault : Parser α) Q := by
  intro a c' hp
  cases hp

theorem locates_fail (expected : Expected) : Locates tokens start (fail expected) Q := by
  intro a c' hp
  rw [fail] at hp
  split at hp <;> cases hp

theorem Locates.within (h : Locates tokens start p Q) {name : Name} :
    Locates tokens start (within name p) Q :=
  fun a c' hp => h a c' (within_eq_ok.mp hp)

/-- One parser after another. -/
theorem Locates.bind (hp : Locates tokens start p Q)
    (hk : ∀ mid a, start ≤ mid → Q mid a → Locates tokens mid (k a) R) :
    Locates tokens start (p >>= k) R := by
  intro b c' h
  obtain ⟨⟨a, between⟩, hfirst, hsecond⟩ := bind_eq_ok.mp h
  obtain ⟨mid, hmid, rfl, hq⟩ := hp a between hfirst
  obtain ⟨stop, hstop, hc', hr⟩ := hk mid a hmid hq b c' hsecond
  exact ⟨stop, Nat.le_trans hmid hstop, hc', hr⟩

/-- What holds at every place holds at a cursor: what stands before it does not matter. -/
theorem Locates.holds {Q : Nat → Nat → α → Prop}
    (h : ∀ tokens start, Locates tokens start p (Q start)) {c c' : Cursor} {a : α}
    (hp : p c = .ok (a, c')) : Q c.index c'.index a := by
  obtain ⟨ahead, index⟩ := c
  have hdrop : (List.replicate index Token.newline ++ ahead).drop index = ahead :=
    List.drop_left' List.length_replicate
  have hlocates := h (List.replicate index Token.newline ++ ahead) index
  rw [Locates, hdrop] at hlocates
  obtain ⟨stop, _, rfl, hq⟩ := hlocates a c' hp
  exact hq

/-- A parser of whose answer nothing has to be known. -/
theorem Locates.after (hp : Advances p)
    (hk : ∀ mid a, start ≤ mid → Locates tokens mid (k a) R) :
    Locates tokens start (p >>= k) R := by
  refine .bind (Q := fun _ _ => True) ?_ fun mid a hmid _ => hk mid a hmid
  intro a c' h
  obtain ⟨n, rfl, _⟩ := hp _ a c' h
  exact ⟨start + n, Nat.le_add_right start n, by rw [Cursor.skip, List.drop_drop], trivial⟩

end Rules

/-! ### One token -/

section OneToken

variable {R : Nat → β → Prop}

theorem Locates.remaining {k : Nat → Parser β} (h : ∀ n, Locates tokens start (k n) R) :
    Locates tokens start (remaining >>= k) R :=
  h _

theorem Locates.peek {k : Option Token → Parser β} (h : Locates tokens start (k tokens[start]?) R) :
    Locates tokens start (peek >>= k) R := by
  rw [← List.head?_drop] at h
  exact h

theorem Locates.peekSecond {k : Option Token → Parser β}
    (h : ∀ second, Locates tokens start (k second) R) : Locates tokens start (peekSecond >>= k) R :=
  h _

theorem Locates.sees {s : Symbol} {k : Bool → Parser β}
    (h : ∀ found, Locates tokens start (k found) R) : Locates tokens start (sees s >>= k) R :=
  h _

theorem Locates.advance {k : TokenRange → Parser β}
    (h : Locates tokens (start + 1) (k (.single start)) R) :
    Locates tokens start (advance >>= k) R := by
  intro b c' hb
  rw [Locates, ← List.tail_drop] at h
  obtain ⟨stop, hstop, hc', hr⟩ := h b c' hb
  exact ⟨stop, Nat.le_of_succ_le hstop, hc', hr⟩

theorem Locates.eatToken {t : Token} {k : Option TokenRange → Parser β}
    (hnone : Locates tokens start (k none) R)
    (hsome : tokens[start]? = some t → Locates tokens (start + 1) (k (some (.single start))) R) :
    Locates tokens start (eatToken t >>= k) R := by
  rw [Parser.eatToken, bind_assoc]
  refine .peek ?_
  split
  · rename_i hnext
    rw [bind_assoc]
    exact .advance (hsome (eq_of_beq hnext))
  · exact hnone

theorem Locates.eat {s : Symbol} {k : Option TokenRange → Parser β}
    (hnone : Locates tokens start (k none) R)
    (hsome : tokens[start]? = some (.symbol s) →
      Locates tokens (start + 1) (k (some (.single start))) R) :
    Locates tokens start (eat s >>= k) R :=
  .eatToken hnone hsome

theorem Locates.expect {s : Symbol} {expected : Expected} {k : TokenRange → Parser β}
    (h : tokens[start]? = some (.symbol s) → Locates tokens (start + 1) (k (.single start)) R) :
    Locates tokens start (expect s expected >>= k) R := by
  rw [Parser.expect, bind_assoc]
  refine .eat ?_ h
  exact .bind (locates_fail expected) (Q := fun _ _ => False) fun _ _ _ hfalse => hfalse.elim

theorem Locates.word? {k : Option (Located TokenRange Name) → Parser β}
    (hnone : Locates tokens start (k none) R)
    (hsome : ∀ name, tokens[start]? = some (.word name) →
      Locates tokens (start + 1) (k (some ⟨name, .single start⟩)) R) :
    Locates tokens start (word? >>= k) R := by
  rw [Parser.word?, bind_assoc]
  refine .peek ?_
  split
  · rename_i name hnext
    rw [bind_assoc]
    exact .advance (hsome name hnext)
  · exact hnone

theorem Locates.word {k : Located TokenRange Name → Parser β}
    (h : ∀ name, tokens[start]? = some (.word name) →
      Locates tokens (start + 1) (k ⟨name, .single start⟩) R) :
    Locates tokens start (word >>= k) R := by
  rw [Parser.word, bind_assoc]
  refine .word? ?_ h
  exact .bind (locates_fail .identifier) (Q := fun _ _ => False) fun _ _ _ hfalse => hfalse.elim

end OneToken

/-! ### Names, aliases and types -/

/-- The name is a word among the tokens from `lo` up to `hi`. -/
structure Named (tokens : List Token) (lo hi : Nat) (w : Located TokenRange Name) : Prop where
  within : w.pos.Within lo hi
  isAt : w.pos.IsAt tokens (.word w.val)

section Named

variable {lo hi lo' hi' : Nat} {w : Located TokenRange Name}

theorem Named.mono (h : Named tokens lo hi w) (hlo : lo' ≤ lo) (hhi : hi ≤ hi') :
    Named tokens lo' hi' w :=
  ⟨h.within.mono hlo hhi, h.isAt⟩

theorem named_single {name : Name} (h : tokens[start]? = some (.word name)) :
    Named tokens start (start + 1) ⟨name, .single start⟩ :=
  ⟨TokenRange.within_single (Nat.le_refl start) (Nat.lt_succ_self start), rfl, h⟩

end Named

theorem locates_newName : Locates tokens start newName fun stop found =>
    ∀ w, found = some w → Named tokens start stop w := by
  refine .peek (.peekSecond fun second => ?_)
  split
  · refine .advance (.word fun name hname => locates_pure ?_)
    rintro w ⟨⟩
    exact (named_single hname).mono (Nat.le_succ start) (Nat.le_refl _)
  · exact locates_pure fun w hw => by cases hw

theorem locates_markedAlias : Locates tokens start markedAlias fun stop marks =>
    ∀ w, marks.2 = some w → Named tokens start stop w := by
  refine .after advances_nullability fun mid before hmid => .bind locates_newName ?_
  intro mid' name hmid' hname
  cases before with
  | some mark => exact locates_pure fun w hw => (hname w hw).mono hmid (Nat.le_refl _)
  | none =>
    refine .after advances_nullability fun stop mark hstop => locates_pure fun w hw => ?_
    exact (hname w hw).mono hmid hstop

theorem locates_parenthesized : Locates tokens start parenthesized (Named tokens start) := by
  refine .expect fun _ => .word fun name hname => .expect fun _ => locates_pure ?_
  exact (named_single hname).mono (Nat.le_succ start) (Nat.le_succ _)

theorem locates_moreSegments {lo : Nat} (n : Nat) {name : Located TokenRange Name}
    (h : name.pos.Covers lo start) :
    Locates tokens start (moreSegments n name) fun stop found => found.pos.Covers lo stop := by
  induction n generalizing name start with
  | zero => exact locates_pure h
  | succ n ih =>
    exact .eat (locates_pure h) fun _ => .word fun _ _ => ih (h.upTo (TokenRange.covers_single _))

theorem locates_qualifiedName : Locates tokens start qualifiedName fun stop name =>
    start < stop ∧ name.pos.Covers start stop := by
  refine .word fun _ _ => .remaining fun n => ?_
  exact (locates_moreSegments n (TokenRange.covers_single start)).mono fun _ _ hlt h => ⟨hlt, h⟩

theorem locates_type (n : Nat) : Locates tokens start (type n) fun stop t =>
    start < stop ∧ t.pos.Covers start stop := by
  have hmark {mid : Nat} (hlt : start < mid) (name : Name) (arguments : List TypeRef)
      {pos : TokenRange} (hpos : pos.Covers start mid) :
      Locates tokens mid (type.mark name pos arguments) fun stop t =>
        start < stop ∧ t.pos.Covers start stop := by
    refine .eat (locates_pure ⟨hlt, hpos⟩) fun _ => locates_pure ⟨Nat.lt_succ_of_lt hlt, ?_⟩
    exact hpos.upTo (TokenRange.covers_single mid)
  cases n with
  | zero => exact locates_fail .identifier
  | succ n =>
    refine .bind locates_qualifiedName fun mid name _ hname => .eat (hmark hname.1 _ _ hname.2) ?_
    refine fun _ => .after (advances_typesBy (advances_type n) n) fun mid' arguments hmid' => ?_
    refine .expect fun _ => hmark ?_ _ _ (hname.2.upTo (TokenRange.covers_single mid'))
    have := hname.1
    omega

/-! ### Items -/

/-- The item stands from `lo` up to `hi` and has its parts among the tokens. -/
structure Placed (tokens : List Token) (lo hi : Nat) (item : Item TokenRange) : Prop where
  lies : item.Lies lo hi
  parts : ∀ part ∈ item.parts, part.IsAmong tokens

/-- A body that stands from `lo` up to `hi` and has its parts among the tokens. -/
structure Filled (tokens : List Token) (lo hi : Nat) (b : Body TokenRange) : Prop where
  extent : b.extent.Within lo hi
  parts : ∀ part ∈ b.parts, part.IsAmong tokens

theorem locates_userItem {lo : Nat} (tags : List (TagItem TokenRange))
    {name : Located TokenRange Name} (hname : Named tokens lo start name) :
    Locates tokens start (userItem tags name) (Placed tokens lo) := by
  have hplaced {stop : Nat} {type : Located TokenRange TypeRef} (hstop : start ≤ stop)
      (htype : type.pos.Within lo stop) (default : Option (Located TokenRange Default)) :
      Placed tokens lo stop (.user ⟨tags, name, type, default⟩) := by
    refine ⟨Item.lies_of_extent_none (hname.within.mono (Nat.le_refl lo) hstop) htype rfl, ?_⟩
    intro part hpart
    obtain rfl := List.mem_singleton.mp hpart
    exact hname.isAt
  have hlo : lo ≤ start := Nat.le_of_lt hname.within.lt
  refine .expect fun _ => .remaining fun n => .bind (locates_type n) fun mid type hmid hcovers => ?_
  have htype := hcovers.2.within hcovers.1
  refine .eat (locates_pure ?_) fun _ => .after advances_defaultValue fun stop default hstop =>
    locates_pure ?_
  · exact hplaced (by omega) (htype.mono (by omega) (Nat.le_refl mid)) none
  · exact hplaced (by omega) (htype.mono (by omega) (by omega)) (some default)

theorem locates_pattern {keyword : Nat} (hkeyword : keyword < start)
    (has : tokens[keyword]? = some (.keyword .asWord)) :
    Locates tokens start (pattern (.single keyword)) fun stop p =>
      p.pos.Covers keyword stop ∧ (Part.pattern p).IsAmong tokens := by
  refine .expect fun _ => .after (advances_eat .caret) fun mid caret hmid =>
    .after advances_patternText fun mid' text hmid' => ?_
  obtain ⟨sought, atEnd⟩ := text
  dsimp only
  split
  · exact locates_fail .patternText
  · -- behind the arrow stands a word or nothing
    have hclose {stop : Nat} (found : Option (Located TokenRange Name)) (hstop : mid' < stop)
        (hfound : ∀ w, found = some w → .word w.val ∈ tokens) :
        Locates tokens stop (do
          if ((found.map (·.val)).getD "").isEmpty && (sought.isEmpty || caret.isSome == atEnd) then
            fail .replacement
          else
            let close ← expect .rightParen
            return (⟨⟨caret.isSome, atEnd, sought, (found.map (·.val)).getD ""⟩,
              (TokenRange.single keyword).upTo close⟩ : Located TokenRange AliasPattern))
          fun stop p => p.pos.Covers keyword stop ∧ (Part.pattern p).IsAmong tokens := by
      split
      · exact locates_fail .replacement
      · rename_i hreplacement
        refine .expect fun hparen => locates_pure ⟨⟨rfl, rfl⟩, ⟨?_, has, hparen⟩, ?_⟩
        · change keyword < stop
          omega
        · cases found with
          | none => exact .inr ⟨rfl, by simpa using hreplacement⟩
          | some w => exact .inl (hfound w rfl)
    refine .expect fun _ => .word? ?_ fun name hname => ?_
    · exact hclose none (Nat.lt_succ_self mid') fun w hw => by cases hw
    · refine hclose (some ⟨name, .single (mid' + 1)⟩) (by omega) ?_
      rintro w ⟨⟩
      exact List.mem_of_getElem? hname

theorem locates_selected (name : Located TokenRange Name) :
    Locates tokens start (selected name) fun stop head =>
      head.name = name ∧ ∀ w, head.newName = some w → Named tokens start stop w := by
  refine .after (advances_eat .star) fun mid star hmid => .bind locates_markedAlias ?_
  intro stop marks hstop hmarks
  exact locates_pure ⟨rfl, fun w hw => (hmarks w hw).mono hmid (Nat.le_refl stop)⟩

section Items

variable {lo : Nat} {body : Parser (Body TokenRange)}

/-- The names of a plain selection, and where its back is. -/
theorem Named.selected {stop : Nat} {name : Located TokenRange Name} {head : Selected TokenRange}
    (hname : Named tokens lo start name) (hstop : start ≤ stop) (hhead : head.name = name)
    (halias : ∀ w, head.newName = some w → Named tokens start stop w) :
    head.name.pos.Within lo stop ∧
      ((head.newName.map (·.pos)).getD head.name.pos).Within lo stop ∧
      ∀ part ∈ head.parts, part.IsAmong tokens := by
  have hlo : lo ≤ start := Nat.le_of_lt hname.within.lt
  have hwithin := hname.within.mono (Nat.le_refl lo) hstop
  rw [Selected.parts, hhead]
  refine ⟨hwithin, ?_, List.forall_mem_cons.mpr ⟨hname.isAt, fun part hpart => ?_⟩⟩
  · cases hnew : head.newName with
    | none => exact hwithin
    | some w => exact (halias w hnew).within.mono hlo (Nat.le_refl stop)
  · obtain ⟨w, hw, rfl⟩ := List.mem_map.mp hpart
    exact (halias w (Option.mem_toList.mp hw)).isAt

theorem locates_wordItem (hbody : ∀ start, Locates tokens start body (Filled tokens start))
    {name : Located TokenRange Name} (hname : Named tokens lo start name) :
    Locates tokens start (wordItem body name) (Placed tokens lo) := by
  have hlo : lo ≤ start := Nat.le_of_lt hname.within.lt
  refine .sees fun called => .sees fun typed => ?_
  split
  · exact locates_userItem [] hname
  · split
    · -- `flat(property)` with a body: front and back are the property, the lead is behind them
      refine .bind locates_parenthesized fun mid property hmid hproperty =>
        .bind locates_newName fun mid' lead hmid' hlead =>
          .bind (hbody mid') fun stop body hstop hfilled => locates_pure ⟨?_, ?_⟩
      · have hwithin := hproperty.within.mono hlo hmid'
        refine ⟨mid', hstop, hwithin, hwithin, ?_⟩
        rintro _ ⟨⟩
        exact hfilled.extent
      · refine List.forall_mem_cons.mpr ⟨hproperty.isAt, fun part hpart => ?_⟩
        rcases List.mem_append.mp hpart with hpart | hpart
        · obtain ⟨w, hw, rfl⟩ := List.mem_map.mp hpart
          exact (hlead w (Option.mem_toList.mp hw)).isAt
        · exact hfilled.parts part hpart
    · split
      · -- `id(property)`, which has no body
        refine .bind locates_parenthesized fun mid property hmid hproperty =>
          .bind locates_markedAlias fun stop marks hstop hmarks => locates_pure ⟨?_, ?_⟩
        · have hwithin := hproperty.within.mono hlo hstop
          exact Item.lies_of_extent_none hwithin hwithin rfl
        · refine List.forall_mem_cons.mpr ⟨hproperty.isAt, fun part hpart => ?_⟩
          obtain ⟨w, hw, rfl⟩ := List.mem_map.mp hpart
          exact (hmarks w (Option.mem_toList.mp hw)).isAt
      · -- a property by its name, with or without a body
        refine .bind (locates_selected name) fun mid head hmid hhead => ?_
        obtain ⟨hfront, hback, hparts⟩ := hname.selected hmid hhead.1 hhead.2
        refine .sees fun opened => ?_
        split
        · refine .bind (hbody mid) fun stop body hstop hfilled => locates_pure ⟨?_, ?_⟩
          · refine ⟨mid, hstop, hfront, hback, ?_⟩
            rintro _ ⟨⟩
            exact hfilled.extent
          · exact List.forall_mem_append.mpr ⟨hparts, hfilled.parts⟩
        · exact locates_pure ⟨Item.lies_of_extent_none hfront hback rfl, hparts⟩

theorem locates_item (hbody : ∀ start, Locates tokens start body (Filled tokens start)) :
    Locates tokens start (item body) (Placed tokens start) := by
  refine .peek ?_
  split
  · refine .remaining fun n => .after (advances_tags n) fun mid tags hmid => ?_
    refine .word fun name hname => locates_userItem tags ?_
    exact (named_single hname).mono hmid (Nat.le_refl _)
  · rename_i has
    refine .advance (.bind (locates_pattern (Nat.lt_succ_self start) has) ?_)
    intro mid pattern hmid hpattern
    have hwithin := hpattern.1.within hmid
    refine .bind (hbody mid) fun stop body hstop hfilled => locates_pure ⟨?_, ?_⟩
    · refine ⟨mid, hstop, hwithin, hwithin, ?_⟩
      rintro _ ⟨⟩
      exact hfilled.extent
    · exact List.forall_mem_cons.mpr ⟨hpattern.2, hfilled.parts⟩
  · rename_i hhash
    refine .advance (.word fun name hname => .after advances_nullability fun stop mark hstop =>
      locates_pure ⟨?_, ?_⟩)
    · have hwithin : TokenRange.Within start stop ⟨start, start + 1⟩ :=
        ⟨Nat.le_refl start, Nat.le_succ start, hstop⟩
      exact Item.lies_of_extent_none hwithin hwithin rfl
    · intro part hpart
      obtain rfl := List.mem_singleton.mp hpart
      exact ⟨Nat.lt_succ_self start, hhash, hname⟩
  · refine .advance (.word fun name hname => locates_pure ⟨?_, ?_⟩)
    · have hwithin := (named_single hname).within.mono (Nat.le_succ start) (Nat.le_refl _)
      exact Item.lies_of_extent_none hwithin hwithin rfl
    · intro part hpart
      obtain rfl := List.mem_singleton.mp hpart
      exact (named_single hname).isAt
  · refine .word? (locates_fail .item) fun name hname => ?_
    exact locates_wordItem hbody (named_single hname)

end Items

/-- Items in a row up to the closing brace. -/
theorem locates_itemsRest {item : Parser (Item TokenRange)}
    (hitem : ∀ start, Locates tokens start item (Placed tokens start)) (n : Nat) :
    Locates tokens start (itemsRest item n) fun stop rest =>
      ∃ last, rest.2 = .single last ∧ stop = last + 1 ∧
        tokens[last]? = some (.symbol .rightBrace) ∧ Item.Row last start rest.1 ∧
        ∀ part ∈ Item.partsAll rest.1, part.IsAmong tokens := by
  induction n generalizing start with
  | zero => exact locates_fail .item
  | succ n ih =>
    refine .eat ?_ fun hbrace => locates_pure ⟨start, rfl, rfl, hbrace, .nil (Nat.le_refl _), ?_⟩
    · refine .bind (hitem start) fun mid first hmid hfirst => ?_
      refine .after (advances_eat .comma) fun mid' comma hmid' => .bind ih ?_
      rintro stop ⟨more, close⟩ hstop ⟨last, hclose, hlast, hbrace, hrow, hparts⟩
      refine locates_pure ⟨last, hclose, hlast, hbrace, ?_, ?_⟩
      · -- a comma behind the item is counted to the item
        exact .cons (hfirst.lies.mono (Nat.le_refl start) hmid') hrow
      · exact List.forall_mem_append.mpr ⟨hfirst.parts, hparts⟩
    · exact fun part hpart => by cases hpart

theorem locates_body (n : Nat) : Locates tokens start (body n) (Filled tokens start) := by
  induction n generalizing start with
  | zero => exact locates_fail (.symbol .leftBrace)
  | succ n ih =>
    refine .expect fun hopen => .bind (locates_itemsRest (fun _ => locates_item fun _ => ih) n) ?_
    rintro stop ⟨items, close⟩ hstop ⟨last, hclose, rfl, hbrace, hrow, hparts⟩
    obtain rfl : close = .single last := hclose
    have hlast : start < last := hrow.le
    refine locates_pure ⟨⟨Nat.le_refl start, Nat.le_of_lt hlast, Nat.lt_succ_self last⟩, ?_⟩
    exact List.forall_mem_cons.mpr ⟨⟨⟨hlast, hopen, hbrace⟩, hrow⟩, hparts⟩

/-! ### Declarations -/

/-- The words are found among the tokens at their numbers. -/
def AreWords (tokens : List Token) (words : List (Located TokenRange Name)) : Prop :=
  ∀ w ∈ words, w.pos.IsAt tokens (.word w.val)

theorem locates_headerWords (n : Nat) {name : Located TokenRange Name}
    (h : name.pos.IsAt tokens (.word name.val)) :
    Locates tokens start (headerWords n name) fun _ words =>
      AreWords tokens (words.2 :: words.1) := by
  induction n generalizing name start with
  | zero => exact locates_pure (List.forall_mem_singleton.mpr h)
  | succ n ih =>
    refine .word? (locates_pure (List.forall_mem_singleton.mpr h)) fun next hnext => ?_
    refine .bind (ih ⟨rfl, hnext⟩) fun mid words _ hwords => locates_pure ?_
    obtain ⟨hlast, hmore⟩ := List.forall_mem_cons.mp hwords
    exact List.forall_mem_cons.mpr ⟨hlast, List.forall_mem_cons.mpr ⟨h, hmore⟩⟩

theorem locates_defaultWords (n : Nat) :
    Locates tokens start (defaultWords n) fun _ words => AreWords tokens words := by
  induction n generalizing start with
  | zero => exact locates_pure fun w hw => by cases hw
  | succ n ih =>
    have hnone {mid : Nat} : Locates tokens mid (pure []) fun _ words => AreWords tokens words :=
      locates_pure fun w hw => by cases hw
    refine .after (advances_eat .comma) fun mid comma _ => .peek ?_
    split
    · split
      · refine .word fun name hname => .bind ih fun stop words _ hwords => locates_pure ?_
        exact List.forall_mem_cons.mpr ⟨(named_single hname).isAt, hwords⟩
      · exact hnone
    · exact hnone

theorem locates_modifiers {words : List (Located TokenRange Name)} (h : AreWords tokens words) :
    Locates tokens start (modifiers words) fun _ found =>
      ∀ m ∈ found, (Part.modifier m).IsAmong tokens := by
  induction words with
  | nil => exact locates_pure fun m hm => by cases hm
  | cons w words ih =>
    obtain ⟨hw, hwords⟩ := List.forall_mem_cons.mp h
    rw [modifiers]
    cases hm : Modifier.ofWord? w.val with
    | none => exact locates_throw _
    | some m =>
      refine .bind (ih hwords) fun stop found _ hfound => locates_pure ?_
      refine List.forall_mem_cons.mpr ⟨?_, hfound⟩
      rw [Part.IsAmong, Modifier.text_of_ofWord? hm]
      exact hw

theorem locates_declaration (tags : List (TagItem TokenRange))
    {words : List (Located TokenRange Name)} {name : Located TokenRange Name}
    (hwords : AreWords tokens words) (hname : name.pos.IsAt tokens (.word name.val)) :
    Locates tokens start (declaration tags words name) fun _ d =>
      ∀ part ∈ d.parts, part.IsAmong tokens := by
  refine .within (.bind (locates_modifiers hwords) fun mid modifiers _ hmodifiers => ?_)
  refine .remaining fun n => .bind (locates_body n) fun mid' body _ hbody => ?_
  refine .after (advances_eat .semicolon) fun stop found _ => locates_pure ?_
  refine List.forall_mem_cons.mpr ⟨hname, List.forall_mem_append.mpr ⟨?_, hbody.parts⟩⟩
  exact List.forall_mem_map.mpr hmodifiers

/-- The modifiers and the declaration of a statement have their parts among the tokens. -/
def Statement.IsAmong (tokens : List Token) (s : Statement) : Prop :=
  (∀ m ∈ s.modifiers, (Part.modifier m).IsAmong tokens) ∧
    ∀ d, s.declaration? = some d → ∀ part ∈ d.parts, part.IsAmong tokens

theorem locates_declared (tags : List (TagItem TokenRange))
    {words : List (Located TokenRange Name)} {name : Located TokenRange Name}
    (hwords : AreWords tokens words) (hname : name.pos.IsAt tokens (.word name.val)) :
    Locates tokens start (do return .declaration (← declaration tags words name))
      fun _ s => Statement.IsAmong tokens s := by
  refine .bind (locates_declaration tags hwords hname) fun stop d _ hd => locates_pure ⟨?_, ?_⟩
  · exact fun m hm => by cases hm
  · rintro _ ⟨⟩
    exact hd

theorem locates_defaultStatement {first : Located TokenRange Name}
    (hfirst : first.pos.IsAt tokens (.word first.val)) :
    Locates tokens start (defaultStatement first) fun _ s => Statement.IsAmong tokens s := by
  refine .remaining fun n => .bind (locates_defaultWords n) fun mid words _ hwords => ?_
  have hall : AreWords tokens (first :: words) := List.forall_mem_cons.mpr ⟨hfirst, hwords⟩
  refine .sees fun opened => ?_
  split
  · -- with a body behind them, the words are a header, and the last of them is the name
    refine locates_declared [] (fun w hw => hall w (List.dropLast_subset _ hw)) ?_
    cases hlast : words.getLast? with
    | none => exact hfirst
    | some w => exact hwords w (List.mem_of_getLast? hlast)
  · refine .after (advances_eat .semicolon) fun mid' found _ => ?_
    refine .bind (locates_modifiers hwords) fun stop modifiers _ hmodifiers => locates_pure ?_
    exact ⟨hmodifiers, fun d hd => by cases hd⟩

theorem locates_statement :
    Locates tokens start statement fun _ s => Statement.IsAmong tokens s := by
  refine .remaining fun n => .after (advances_tags n) fun mid tags _ => ?_
  refine .word? (locates_fail .declaration) fun name hname => ?_
  have hfirst := (named_single hname).isAt
  dsimp only
  split
  · exact locates_defaultStatement hfirst
  · refine .remaining fun n => .bind (locates_headerWords n hfirst) fun mid words _ hwords => ?_
    obtain ⟨hlast, hmore⟩ := List.forall_mem_cons.mp hwords
    refine .sees fun opened => ?_
    split
    · exact locates_declared tags hmore hlast
    · exact locates_fail (.symbol .leftBrace)

theorem locates_statements (n : Nat) :
    Locates tokens start (statements n) fun _ found =>
      ∀ s ∈ found, Statement.IsAmong tokens s := by
  induction n generalizing start with
  | zero => exact locates_pure fun s hs => by cases hs
  | succ n ih =>
    refine .peek ?_
    split
    · exact locates_pure fun s hs => by cases hs
    · refine .bind locates_statement fun mid first _ hfirst => ?_
      refine .bind ih fun stop found _ hfound => ?_
      exact locates_pure (List.forall_mem_cons.mpr ⟨hfirst, hfound⟩)

theorem locates_source :
    Locates tokens start source fun _ s => ∀ part ∈ s.parts, part.IsAmong tokens := by
  refine .after advances_exported fun mid entity _ => .remaining fun n =>
    .bind (locates_statements n) fun stop found _ hfound => locates_pure fun part hpart => ?_
  rcases List.mem_append.mp hpart with hpart | hpart
  · obtain ⟨m, hm, rfl⟩ := List.mem_map.mp hpart
    obtain ⟨s, hs, hm⟩ := List.mem_flatMap.mp hm
    exact (hfound s hs).1 m hm
  · obtain ⟨d, hd, hpart⟩ := List.mem_flatMap.mp hpart
    obtain ⟨s, hs, hd⟩ := List.mem_filterMap.mp hd
    exact (hfound s hs).2 d hd part hpart

end Parser

/-- **Every part of a source is among its tokens.** -/
theorem Source.isAmong_of_ofSignificant {tokens : List Token} {s : Source TokenRange}
    (h : ofSignificant tokens = .ok s) {part : Part TokenRange} (hpart : part ∈ s.parts) :
    part.IsAmong tokens := by
  rw [ofSignificant] at h
  split at h
  · rename_i hsource
    cases h
    have hlocates : Parser.Locates tokens 0 Parser.source _ := Parser.locates_source
    obtain ⟨_, _, _, hparts⟩ := hlocates _ _ hsource
    exact hparts part hpart
  · cases h

end Projection
