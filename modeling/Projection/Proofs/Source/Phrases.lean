import Projection.Proofs.Source.Fragments
import Projection.Proofs.Source.Listings
import Projection.Proofs.Source.Locating

/-!
# The phrases of a source

Four things in a source have a text of their own: the types and the defaults of user-defined
properties, the patterns of alias groups, and the values of annotation arguments. `Source.phrases`
lists them in the order in which they are written, and `Source.blank` is the rest of the source: the
same tree with nothing in their places, and without positions.

`Parser.phrase` reads a phrase of one kind. Tokens *spell* a phrase if they are read as it wherever
such a phrase may stand (`Parser.Spelled`).
-/

namespace Projection

/-- A part of a source that has a text of its own. -/
inductive Phrase where
  /-- The type of a user-defined property -/
  | type (t : TypeRef)
  /-- The pattern of an alias group -/
  | pattern (p : AliasPattern)
  /-- The value of an annotation argument -/
  | argument (v : Value)
  /-- The default of a user-defined property -/
  | default (d : Default)
  deriving Repr

/-- Where a phrase may stand. -/
inductive Phrase.Kind where
  | type
  | pattern
  | argument
  | default
  deriving DecidableEq, Repr

def Phrase.kind : Phrase → Phrase.Kind
  | type _ => .type
  | pattern _ => .pattern
  | argument _ => .argument
  | default _ => .default

variable {P Q : Type}

/-! ### The phrases -/

def TagItem.phrases (tag : TagItem P) : List (Located P Phrase) :=
  tag.arguments.map fun a => a.2.map .argument

def UserItem.phrases (item : UserItem P) : List (Located P Phrase) :=
  item.tags.flatMap TagItem.phrases ++
    item.type.map .type :: (item.default.map (·.map Phrase.default)).toList

mutual

/-- The phrases of an item and of its body. -/
def Item.phrases : Item P → List (Located P Phrase)
  | .user item => item.phrases
  | .group pattern items _ => pattern.map .pattern :: Item.phrasesAll items
  | .nested _ items _ => Item.phrasesAll items
  | .flatten _ _ items _ => Item.phrasesAll items
  | .plain _ | .bundle .. | .idOnly .. | .negative _ => []

def Item.phrasesAll : List (Item P) → List (Located P Phrase)
  | [] => []
  | item :: items => item.phrases ++ Item.phrasesAll items

end

def Declaration.phrases (d : Declaration P) : List (Located P Phrase) :=
  d.tags.flatMap TagItem.phrases ++ Item.phrasesAll d.body.items

/-- The phrases of a source in their order. -/
def Source.phrases (s : Source P) : List (Located P Phrase) :=
  s.declarations.flatMap Declaration.phrases

/-! ### What is left without them -/

def TagItem.blank (tag : TagItem P) : TagItem Unit where
  name := tag.name.move nowhere
  arguments := tag.arguments.map fun a => (a.1.move nowhere, ⟨.list [], ()⟩)

def UserItem.blank (item : UserItem P) : UserItem Unit where
  tags := item.tags.map TagItem.blank
  name := item.name.move nowhere
  type := ⟨⟨"", [], false⟩, ()⟩
  default := item.default.map fun _ => ⟨.null, ()⟩

mutual

def Item.blank : Item P → Item Unit
  | .user item => .user item.blank
  | .group _ items _ => .group ⟨⟨false, false, "", ""⟩, ()⟩ (Item.blankAll items) ()
  | .nested head items _ => .nested (head.move nowhere) (Item.blankAll items) ()
  | .flatten property lead items _ =>
    .flatten (property.move nowhere) (lead.map (·.move nowhere)) (Item.blankAll items) ()
  | .plain head => .plain (head.move nowhere)
  | .bundle name nullability => .bundle (name.move nowhere) (nullability.map (·.move nowhere))
  | .idOnly property nullability newName =>
    .idOnly (property.move nowhere) (nullability.map (·.move nowhere))
      (newName.map (·.move nowhere))
  | .negative name => .negative (name.move nowhere)

def Item.blankAll : List (Item P) → List (Item Unit)
  | [] => []
  | item :: items => item.blank :: Item.blankAll items

end

def Declaration.blank (d : Declaration P) : Declaration Unit where
  name := d.name.move nowhere
  tags := d.tags.map TagItem.blank
  modifiers := d.modifiers.map (·.move nowhere)
  body := ⟨Item.blankAll d.body.items, ()⟩

/-- The source without its phrases and its positions. -/
def Source.blank (s : Source P) : Source Unit where
  entity := s.entity.move nowhere
  modifiers := s.modifiers.map (·.move nowhere)
  declarations := s.declarations.map Declaration.blank

/-! ### Moving -/

section Move

variable (f : P → Q)

theorem TagItem.phrases_move (tag : TagItem P) :
    (tag.move f).phrases = tag.phrases.map (·.move f) := by
  simp [phrases, move, Located.move, Located.map]

theorem TagItem.blank_move (tag : TagItem P) : (tag.move f).blank = tag.blank := by
  simp [blank, move, Located.move]

theorem TagItem.flatMap_phrases_move (tags : List (TagItem P)) :
    (tags.map (·.move f)).flatMap phrases = (tags.flatMap phrases).map (·.move f) := by
  simp only [List.flatMap_map, List.map_flatMap, phrases_move]

theorem TagItem.map_blank_move (tags : List (TagItem P)) :
    (tags.map (·.move f)).map blank = tags.map blank := by
  simp only [List.map_map, Function.comp_def, blank_move]

theorem UserItem.phrases_move (item : UserItem P) :
    (item.move f).phrases = item.phrases.map (·.move f) := by
  rw [phrases, phrases, List.map_append, ← TagItem.flatMap_phrases_move]
  cases hdefault : item.default <;> simp [move, hdefault, Located.move, Located.map]

theorem UserItem.blank_move (item : UserItem P) : (item.move f).blank = item.blank := by
  simp only [blank, move, TagItem.map_blank_move, Option.map_map]
  rfl

mutual

theorem Item.phrases_move : ∀ item : Item P, (item.move f).phrases = item.phrases.map (·.move f)
  | .user item => UserItem.phrases_move f item
  | .group _ items _ => congrArg (_ :: ·) (Item.phrasesAll_move items)
  | .nested _ items _ => Item.phrasesAll_move items
  | .flatten _ _ items _ => Item.phrasesAll_move items
  | .plain _ | .bundle .. | .idOnly .. | .negative _ => rfl

theorem Item.phrasesAll_move : ∀ items : List (Item P),
    Item.phrasesAll (Item.moveAll f items) = (Item.phrasesAll items).map (·.move f)
  | [] => rfl
  | item :: items => by
    rw [Item.moveAll, Item.phrasesAll, Item.phrasesAll, List.map_append, Item.phrases_move item,
      Item.phrasesAll_move items]

end

mutual

theorem Item.blank_move : ∀ item : Item P, (item.move f).blank = item.blank
  | .user item => congrArg Item.user (UserItem.blank_move f item)
  | .group _ items _ => by rw [Item.move, Item.blank, Item.blank, Item.blankAll_move items]
  | .nested head items _ => by
    rw [Item.move, Item.blank, Item.blank, Item.blankAll_move items, Selected.move_move]
    rfl
  | .flatten property lead items _ => by
    rw [Item.move, Item.blank, Item.blank, Item.blankAll_move items, Option.map_map]
    rfl
  | .plain head => congrArg Item.plain (Selected.move_move f nowhere head)
  | .bundle name nullability => by
    rw [Item.move, Item.blank, Item.blank, Option.map_map]
    rfl
  | .idOnly property nullability newName => by
    rw [Item.move, Item.blank, Item.blank, Option.map_map, Option.map_map]
    rfl
  | .negative name => rfl

theorem Item.blankAll_move : ∀ items : List (Item P),
    Item.blankAll (Item.moveAll f items) = Item.blankAll items
  | [] => rfl
  | item :: items => by
    rw [Item.moveAll, Item.blankAll, Item.blankAll, Item.blank_move item, Item.blankAll_move items]

end

theorem Declaration.phrases_move (d : Declaration P) :
    (d.move f).phrases = d.phrases.map (·.move f) := by
  rw [phrases, phrases, List.map_append, ← TagItem.flatMap_phrases_move, ← Item.phrasesAll_move]
  rfl

theorem Declaration.blank_move (d : Declaration P) : (d.move f).blank = d.blank := by
  simp only [blank, move, Body.move, Item.blankAll_move, List.map_map, Function.comp_def,
    TagItem.blank_move]
  rfl

theorem Source.phrases_move (s : Source P) : (s.move f).phrases = s.phrases.map (·.move f) := by
  simp only [phrases, move, List.flatMap_map, List.map_flatMap, Declaration.phrases_move]

theorem Source.blank_move (s : Source P) : (s.move f).blank = s.blank := by
  simp only [blank, move, List.map_map, Function.comp_def, Declaration.blank_move]
  rfl

end Move

/-- The phrases do not depend on positions, nor does what is left without them. -/
theorem Source.phrases_of_bare_eq {s : Source P} {t : Source Q} (h : s.bare = t.bare) :
    s.phrases.map (·.val) = t.phrases.map (·.val) := by
  have hphrases := congrArg (fun s => s.phrases.map (·.val)) h
  simpa only [bare, phrases_move, List.map_map, Function.comp_def, Located.move] using hphrases

theorem Source.blank_of_bare_eq {s : Source P} {t : Source Q} (h : s.bare = t.bare) :
    s.blank = t.blank := by
  rw [← blank_move nowhere s, ← blank_move nowhere t]
  exact congrArg Source.blank h

/-! ### Items and their bodies -/

/-- The phrases of an item without its body. -/
def Item.ownPhrases : Item P → List (Located P Phrase)
  | .user item => item.phrases
  | .group pattern _ _ => [pattern.map .pattern]
  | .plain _ | .nested .. | .bundle .. | .flatten .. | .idOnly .. | .negative _ => []

theorem Item.phrases_fill {item : Item P} (h : item.extent?.isSome) (body : Body P) :
    (item.fill body).phrases = item.ownPhrases ++ Item.phrasesAll body.items := by
  cases item <;> first | rfl | cases h

theorem Item.phrases_of_none {item : Item P} (h : item.extent?.isSome = false) :
    item.phrases = item.ownPhrases := by
  cases item <;> first | rfl | cases h

theorem Item.blank_fill (item : Item P) (body : Body P) :
    (item.fill body).blank = item.blank.fill ⟨Item.blankAll body.items, ()⟩ := by
  cases item <;> rfl

theorem Item.extent?_blank (item : Item P) : item.blank.extent?.isSome = item.extent?.isSome := by
  cases item <;> rfl

namespace Parser

variable {start : Nat} {tokens : List Token} {c c' : Cursor} {w : Located TokenRange Phrase}

/-! ### What values and defaults cover -/

/-- What a signed token covers, and that nothing is taken if there is neither a sign nor such a
token. -/
theorem locates_signed (read : Bool → Token → Option α) :
    Locates tokens start (signed read) fun stop found =>
      match found with
      | .inl x => x.pos.Covers start stop
      | .inr negative => negative = false → stop = start := by
  refine .eat (.peek ?_) fun _ => .peek ?_
  · split
    · exact .advance (locates_pure (TokenRange.covers_single start))
    · exact locates_pure fun _ => rfl
  · split
    · exact .advance (locates_pure (.upTo (TokenRange.covers_single start)
        (TokenRange.covers_single (start + 1))))
    · exact locates_pure fun h => by cases h

theorem locates_listRest_last {value : Parser (Located TokenRange Value)} (hvalue : Advances value)
    (n : Nat) :
    Locates tokens start (listRest value n) fun stop rest => rest.2.last + 1 = stop := by
  induction n generalizing start with
  | zero => exact locates_fail .annotationValue
  | succ n ih =>
    refine .eat (.after hvalue fun mid first _ => .eat ?_ fun _ => ?_) fun _ => locates_pure rfl
    · exact .expect fun _ => locates_pure rfl
    · exact .bind ih fun _ rest _ hrest => locates_pure hrest

theorem locates_value_covers (n : Nat) :
    Locates tokens start (value n) fun stop v => v.pos.Covers start stop := by
  cases n with
  | zero => exact locates_fail .annotationValue
  | succ n =>
    refine .eat (.bind (locates_signed literal?) fun mid found _ hfound => ?_) fun _ => ?_
    · match found with
      | .inl l => exact locates_pure hfound
      | .inr true => exact locates_fail .annotationValue
      | .inr false =>
        obtain rfl := hfound rfl
        intro v c' h
        dsimp only at h
        rw [attempt_bind] at h
        split at h
        · rename_i name between hname
          obtain ⟨stop, hstop, rfl, hcovers⟩ := locates_qualifiedName _ _ hname
          cases h
          exact ⟨stop, hstop, rfl, hcovers.2⟩
        · exact absurd h (fail_ne_ok _ _ _)
    · exact .bind (locates_listRest_last (advances_value n) n) fun _ rest _ hrest =>
        locates_pure ⟨rfl, hrest⟩

theorem locates_defaultValue_covers :
    Locates tokens start defaultValue fun stop d => d.pos.Covers start stop := by
  refine .bind (locates_signed default?) fun mid found _ hfound => ?_
  cases found with
  | inl d => exact locates_pure hfound
  | inr negative => exact locates_fail .defaultValue

/-! ### Answers -/

section Answers

variable {α β : Type} {p : Parser α} {k : α → Parser β} {Q : β → Prop}

/-- Every answer of the parser satisfies `Q`. -/
def Answers (p : Parser β) (Q : β → Prop) : Prop :=
  ∀ c b c', p c = .ok (b, c') → Q b

theorem answers_pure {b : β} (h : Q b) : Answers (pure b) Q := by
  rintro c _ c' hpure
  cases hpure
  exact h

theorem answers_fail (expected : Expected) : Answers (fail expected) Q :=
  fun c _ _ h => absurd h (fail_ne_ok expected c _)

theorem Answers.after (hk : ∀ a, Answers (k a) Q) : Answers (p >>= k) Q := by
  intro c b c' h
  obtain ⟨⟨a, d⟩, _, hb⟩ := bind_eq_ok.mp h
  exact hk a d b c' hb

end Answers

/-! ### Reading a phrase -/

/-- A phrase of one kind. A pattern has its `as` before it. -/
def phrase : Phrase.Kind → Parser (Located TokenRange Phrase)
  | .type => do return (← type (← remaining)).map .type
  | .pattern => do
    match ← eatToken (.keyword .asWord) with
    | some keyword => return (← pattern keyword).map .pattern
    | none => fail .item
  | .argument => do return (← value (← remaining)).map .argument
  | .default => do return (← defaultValue).map .default

theorem bind_pure_eq_ok {α β : Type} {p : Parser α} {f : α → β} {b : β} :
    (p >>= fun a => pure (f a)) c = .ok (b, c') ↔ ∃ a, p c = .ok (a, c') ∧ f a = b := by
  rw [show (p >>= fun a => pure (f a)) c = (p c >>= fun x => .ok (f x.1, x.2)) from rfl, bind_eq_ok]
  constructor
  · rintro ⟨⟨a, _⟩, ha, hpure⟩
    cases hpure
    exact ⟨a, ha, rfl⟩
  · rintro ⟨a, ha, rfl⟩
    exact ⟨(a, c'), ha, rfl⟩

theorem phrase_type : phrase .type c = .ok (w, c') ↔
    ∃ t, type c.ahead.length c = .ok (t, c') ∧ t.map .type = w :=
  bind_pure_eq_ok

theorem phrase_pattern : phrase .pattern c = .ok (w, c') ↔
    ∃ rest p, c.ahead = .keyword .asWord :: rest ∧
      pattern (.single c.index) ⟨rest, c.index + 1⟩ = .ok (p, c') ∧ p.map .pattern = w := by
  by_cases hnext : c.ahead.head? = some (.keyword .asWord)
  · obtain ⟨rest, hahead⟩ := List.head?_eq_some_iff.mp hnext
    have hphrase : phrase .pattern c =
        (pattern (.single c.index) >>= fun p => pure (p.map .pattern)) ⟨rest, c.index + 1⟩ := by
      have heat := eatToken_eq (.keyword .asWord) c
      rw [if_pos hnext, hahead, List.tail_cons] at heat
      rw [phrase, bind_eq_of_eq_ok heat]
    rw [hphrase, bind_pure_eq_ok]
    constructor
    · rintro ⟨p, hp, rfl⟩
      exact ⟨rest, p, hahead, hp, rfl⟩
    · rintro ⟨rest', p, hahead', hp, rfl⟩
      cases hahead.symm.trans hahead'
      exact ⟨p, hp, rfl⟩
  · have hphrase : phrase .pattern c = fail .item c :=
      bind_eq_of_eq_ok ((eatToken_eq _ c).trans (if_neg hnext))
    rw [hphrase]
    refine ⟨fun h => absurd h (fail_ne_ok _ c _), ?_⟩
    rintro ⟨rest, p, hahead, _⟩
    exact absurd (by rw [hahead, List.head?_cons]) hnext

theorem phrase_argument : phrase .argument c = .ok (w, c') ↔
    ∃ v, value c.ahead.length c = .ok (v, c') ∧ v.map .argument = w :=
  bind_pure_eq_ok

theorem phrase_default : phrase .default c = .ok (w, c') ↔
    ∃ d, defaultValue c = .ok (d, c') ∧ d.map .default = w :=
  bind_pure_eq_ok

/-- What may stand behind a phrase. -/
def Follows : Phrase.Kind → List Token → Prop
  | .type, rest => EndsType rest
  | .argument, rest =>
    rest.head? = some (.symbol .comma) ∨ rest.head? = some (.symbol .rightParen)
  | .pattern, _ | .default, _ => True

/-- Wherever such a phrase may stand, the tokens are read as this one. -/
def Spelled (v : Phrase) (tokens : List Token) : Prop :=
  ∀ {rest}, Follows v.kind rest → Reads (phrase v.kind) tokens rest (·.val = v)

/-- Read from the number `start` on, the tokens are this phrase. -/
def PhraseAt (start : Nat) (tokens : List Token) (w : Located TokenRange Phrase) : Prop :=
  ∃ rest, rest ≠ [] ∧
    phrase w.val.kind ⟨tokens ++ rest, start⟩ = .ok (w, ⟨rest, start + tokens.length⟩)

theorem progresses_type (n : Nat) : Progresses (type n) := by
  cases n with
  | zero => exact takes_fail _
  | succ n =>
    have hmark : ∀ name pos arguments, Advances (type.mark name pos arguments) :=
      fun name pos arguments =>
        .either (advances_eat .question) (takes_pure trivial) fun _ => takes_pure trivial
    refine .before progresses_qualifiedName fun name =>
      .either (advances_eat .less) (hmark _ _ _) ?_
    exact fun _ => .seq (advances_typesBy (advances_type n) n) fun _ =>
      .seq (advances_expect .greater _) fun _ => hmark _ _ _

theorem progresses_defaultValue : Progresses defaultValue := by
  rw [defaultValue_eq]
  exact .after (advances_eat .minus) progresses_defaultRest

theorem progresses_phrase (kind : Phrase.Kind) : Progresses (phrase kind) := by
  cases kind with
  | type =>
    exact .after advances_remaining fun n => .before (progresses_type n) fun _ => takes_pure trivial
  | pattern =>
    refine .after (advances_eatToken _) fun found => ?_
    cases found with
    | none => exact takes_fail .item
    | some keyword => exact .before (progresses_pattern keyword) fun _ => takes_pure trivial
  | argument =>
    exact .after advances_remaining fun n =>
      .before (progresses_value n) fun _ => takes_pure trivial
  | default => exact .before progresses_defaultValue fun _ => takes_pure trivial

theorem locates_phrase (kind : Phrase.Kind) (tokens : List Token) (start : Nat) :
    Locates tokens start (phrase kind) fun stop w => w.pos.Covers start stop := by
  cases kind with
  | type =>
    exact .remaining fun n => .bind (locates_type n) fun _ _ _ hcovers =>
      locates_pure hcovers.2
  | pattern =>
    exact .eatToken (locates_fail .item) fun has =>
      .bind (locates_pattern (Nat.lt_succ_self start) has) fun _ _ _ hpattern =>
        locates_pure hpattern.1
  | argument =>
    exact .remaining fun n => .bind (locates_value_covers n) fun _ _ _ hcovers =>
      locates_pure hcovers
  | default => exact .bind locates_defaultValue_covers fun _ _ _ hcovers => locates_pure hcovers

theorem kind_of_phrase {kind : Phrase.Kind} (h : phrase kind c = .ok (w, c')) :
    w.val.kind = kind := by
  have hkind : Answers (phrase kind) (·.val.kind = kind) := by
    cases kind with
    | type => exact .after fun _ => .after fun _ => answers_pure rfl
    | pattern =>
      refine .after fun found => ?_
      cases found with
      | none => exact answers_fail .item
      | some keyword => exact .after fun _ => answers_pure rfl
    | argument => exact .after fun _ => .after fun _ => answers_pure rfl
    | default => exact .after fun _ => answers_pure rfl
  exact hkind c w c' h

/-- The tokens that are read as a phrase, if there are more behind them. -/
theorem phraseAt_of_phrase {kind : Phrase.Kind} (h : phrase kind c = .ok (w, c'))
    (hne : c'.ahead ≠ []) : ∃ taken, c.ahead = taken ++ c'.ahead ∧
      c'.index = c.index + taken.length ∧ PhraseAt c.index taken w := by
  obtain ⟨taken, hahead, _⟩ := (progresses_phrase kind).exists_append h
  have hindex := Takes.index_eq (progresses_phrase kind) h hahead hne
  refine ⟨taken, hahead, hindex, c'.ahead, hne, ?_⟩
  rw [← hahead, ← hindex, kind_of_phrase h]
  exact h

theorem PhraseAt.ne_nil (h : PhraseAt start tokens w) : tokens ≠ [] := by
  obtain ⟨rest, _, hphrase⟩ := h
  exact Takes.of_ahead (progresses_phrase _) hphrase rfl

theorem PhraseAt.covers (h : PhraseAt start tokens w) :
    w.pos.Covers start (start + tokens.length) := by
  obtain ⟨rest, _, hphrase⟩ := h
  exact Locates.holds (locates_phrase _) hphrase

end Parser

end Projection
