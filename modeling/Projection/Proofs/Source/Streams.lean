import Projection.Source.Parser

/-!
# Parsers on other streams

A parser knows its stream by four operations only. `Simulates` says that these agree for the streams
that a relation holds of: the tokens are the same, and a function turns the numbers of the one
stream into those of the other. `Parser.Tracks` says that two parsers do the same on such streams.
They take the same tokens, answer the same but for the numbers, and stop for the same faults.

A parser that is put together from others tracks another one if its parts do (`Tracks.bind`), so the
proofs follow the text of the parsers, up to whole sources (`Parser.tracks_source`).
-/

namespace Projection

/-- The range with other numbers for its tokens. -/
def TokenRange.renumber (f : Nat → Nat) (r : TokenRange) : TokenRange :=
  ⟨f r.first, f r.last⟩

/-- Streams that `R` holds of have the same tokens, and `f` turns the numbers of the second stream
into those of the first. -/
structure Simulates {σ τ : Type} [TokenStream σ] [TokenStream τ] (f : Nat → Nat)
    (R : σ → τ → Prop) : Prop where
  head? : ∀ {s t}, R s t → TokenStream.head? s = TokenStream.head? t
  index : ∀ {s t}, R s t → TokenStream.index s = f (TokenStream.index t)
  tail : ∀ {s t}, R s t → R (TokenStream.tail s) (TokenStream.tail t)
  remaining : ∀ {s t}, R s t → TokenStream.remaining s = TokenStream.remaining t

namespace Parser

/-- The first parser ends as the second does. `g` turns the answer of the second into the answer of
the first. -/
inductive Tracked {σ τ α : Type} (f : Nat → Nat) (R : σ → τ → Prop) (g : α → α) :
    Except (SyntaxFault TokenRange) (α × σ) → Except (SyntaxFault TokenRange) (α × τ) → Prop
  | ok (a : α) {s : σ} {t : τ} : R s t → Tracked f R g (.ok (g a, s)) (.ok (a, t))
  | error (fault : SyntaxFault TokenRange) :
      Tracked f R g (.error (fault.move (.renumber f))) (.error fault)

/-- The parsers do the same on streams that `R` holds of. -/
def Tracks {σ τ α : Type} (f : Nat → Nat) (R : σ → τ → Prop) (p : ParserOn σ α)
    (q : ParserOn τ α) (g : α → α) : Prop :=
  ∀ s t, R s t → Tracked f R g (p s) (q t)

variable {σ τ α β : Type} {f : Nat → Nat} {R : σ → τ → Prop}

section Rules

variable {p p' : ParserOn σ α} {q q' : ParserOn τ α} {g : α → α}

theorem tracks_pure {a b : α} (h : b = g a) : Tracks f R (pure b) (pure a) g := by
  rintro s t hR
  subst h
  exact .ok a hR

/-- One parser after another. -/
theorem Tracks.bind {k : α → ParserOn σ β} {l : α → ParserOn τ β} {g' : β → β}
    (hp : Tracks f R p q g) (hk : ∀ a, Tracks f R (k (g a)) (l a) g') :
    Tracks f R (p >>= k) (q >>= l) g' := by
  intro s t hR
  have hfirst := hp s t hR
  change Tracked f R g' (p s >>= fun x => k x.1 x.2) (q t >>= fun x => l x.1 x.2)
  generalize p s = result, q t = result' at hfirst ⊢
  cases hfirst with
  | ok a hR' => exact hk a _ _ hR'
  | error fault => exact .error fault

theorem Tracks.ite {c : Prop} [Decidable c] (hp : Tracks f R p q g) (hp' : Tracks f R p' q' g) :
    Tracks f R (if c then p else p') (if c then q else q') g := by
  split
  · exact hp
  · exact hp'

/-- A parser that takes nothing if it fails. -/
theorem Tracks.attempt (hp : Tracks f R p q g) :
    Tracks f R (attempt p) (attempt q) (Option.map g) := by
  intro s t hR
  have hfirst := hp s t hR
  rw [Parser.attempt, Parser.attempt]
  generalize p s = result, q t = result' at hfirst ⊢
  cases hfirst with
  | ok a hR' => exact .ok (some a) hR'
  | error fault => exact .ok none hR

/-- A parser that tells which declaration its faults are in. -/
theorem Tracks.within (hp : Tracks f R p q g) (name : Name) :
    Tracks f R (within name p) (within name q) g := by
  intro s t hR
  have hfirst := hp s t hR
  rw [Parser.within, Parser.within]
  generalize p s = result, q t = result' at hfirst ⊢
  cases hfirst with
  | ok a hR' => exact .ok a hR'
  | error fault => exact .error (.within name fault)

end Rules

variable [TokenStream σ] [TokenStream τ] (h : Simulates f R)

include h

/-! ### One token -/

theorem tracks_fail {expected : Expected} {g : α → α} :
    Tracks f R (fail expected) (fail expected) g := by
  intro s t hR
  rw [fail, fail, h.head? hR, h.index hR]
  cases TokenStream.head? t with
  | none => exact .error (.ended expected)
  | some u => exact .error (.unexpected ⟨u, .single (TokenStream.index t)⟩ expected)

theorem tracks_remaining : Tracks f R remaining remaining id := by
  intro s t hR
  change Tracked f R id (.ok (TokenStream.remaining s, s)) (.ok (TokenStream.remaining t, t))
  rw [h.remaining hR]
  exact .ok _ hR

theorem tracks_peek : Tracks f R peek peek id := by
  intro s t hR
  change Tracked f R id (.ok (TokenStream.head? s, s)) (.ok (TokenStream.head? t, t))
  rw [h.head? hR]
  exact .ok _ hR

theorem tracks_peekSecond : Tracks f R peekSecond peekSecond id := by
  intro s t hR
  change Tracked f R id (.ok (TokenStream.head? (TokenStream.tail s), s))
    (.ok (TokenStream.head? (TokenStream.tail t), t))
  rw [h.head? (h.tail hR)]
  exact .ok _ hR

theorem tracks_advance : Tracks f R advance advance (.renumber f) := by
  intro s t hR
  rw [advance, advance, h.index hR]
  exact .ok (TokenRange.single (TokenStream.index t)) (h.tail hR)

theorem tracks_sees (s : Symbol) : Tracks f R (sees s) (sees s) id :=
  .bind (tracks_peek h) fun _ => tracks_pure rfl

theorem tracks_eatToken (t : Token) :
    Tracks f R (eatToken t) (eatToken t) (Option.map (.renumber f)) :=
  .bind (tracks_peek h) fun _ =>
    .ite (.bind (tracks_advance h) fun _ => tracks_pure rfl) (tracks_pure rfl)

theorem tracks_eat (s : Symbol) : Tracks f R (eat s) (eat s) (Option.map (.renumber f)) :=
  tracks_eatToken h (.symbol s)

theorem tracks_expect (s : Symbol) (expected : Expected) :
    Tracks f R (expect s expected) (expect s expected) (.renumber f) := by
  refine .bind (tracks_eat h s) fun found => ?_
  cases found with
  | none => exact tracks_fail h
  | some r => exact tracks_pure rfl

theorem tracks_word? : Tracks f R word? word? (Option.map (Located.move (.renumber f))) := by
  refine .bind (tracks_peek h) fun next => ?_
  cases next with
  | none => exact tracks_pure rfl
  | some t =>
    cases t with
    | word name => exact .bind (tracks_advance h) fun _ => tracks_pure rfl
    | _ => exact tracks_pure rfl

theorem tracks_word : Tracks f R word word (Located.move (.renumber f)) := by
  refine .bind (tracks_word? h) fun found => ?_
  cases found with
  | none => exact tracks_fail h
  | some w => exact tracks_pure rfl

/-! ### Names, marks and aliases -/

theorem tracks_moreSegments (n : Nat) (name : Located TokenRange Name) :
    Tracks f R (moreSegments n (name.move (.renumber f))) (moreSegments n name)
      (Located.move (.renumber f)) := by
  induction n generalizing name with
  | zero => exact tracks_pure rfl
  | succ n ih =>
    refine .bind (tracks_eat h .dot) fun dot => ?_
    cases dot with
    | none => exact tracks_pure rfl
    | some r =>
      exact .bind (tracks_word h) fun segment =>
        ih ⟨Name.join name.val segment.val, name.pos.upTo segment.pos⟩

theorem tracks_qualifiedName :
    Tracks f R qualifiedName qualifiedName (Located.move (.renumber f)) :=
  .bind (tracks_word h) fun first => .bind (tracks_remaining h) fun n =>
    tracks_moreSegments h n first

theorem tracks_nullability :
    Tracks f R nullability nullability (Option.map (Located.move (.renumber f))) := by
  refine .bind (tracks_eat h .question) fun question => ?_
  cases question with
  | some r => exact tracks_pure rfl
  | none =>
    refine .bind (tracks_eat h .bang) fun bang => tracks_pure ?_
    cases bang <;> rfl

theorem tracks_newName :
    Tracks f R newName newName (Option.map (Located.move (.renumber f))) :=
  .bind (tracks_peek h) fun _ => .bind (tracks_peekSecond h) fun _ =>
    .ite (.bind (tracks_advance h) fun _ => .bind (tracks_word h) fun _ => tracks_pure rfl)
      (tracks_pure rfl)

theorem tracks_markedAlias :
    Tracks f R markedAlias markedAlias (Prod.map (Option.map (Located.move (.renumber f)))
      (Option.map (Located.move (.renumber f)))) := by
  refine .bind (tracks_nullability h) fun before => .bind (tracks_newName h) fun name => ?_
  cases before with
  | some mark => exact tracks_pure rfl
  | none => exact .bind (tracks_nullability h) fun _ => tracks_pure rfl

/-! ### Values and types -/

theorem tracks_signed (read : Bool → Token → Option α) :
    Tracks f R (signed read) (signed read) (Sum.map (Located.move (.renumber f)) id) := by
  refine .bind (tracks_eat h .minus) fun minus => .bind (tracks_peek h) fun next => ?_
  rw [Option.isSome_map, id]
  cases next.bind (read minus.isSome) with
  | none => exact tracks_pure rfl
  | some a =>
    refine .bind (tracks_advance h) fun r => tracks_pure ?_
    cases minus <;> rfl

theorem tracks_listRest {v : ParserOn σ (Located TokenRange Value)}
    {w : ParserOn τ (Located TokenRange Value)} (hv : Tracks f R v w (Located.move (.renumber f)))
    (n : Nat) : Tracks f R (listRest v n) (listRest w n) (Prod.map id (.renumber f)) := by
  induction n with
  | zero => exact tracks_fail h
  | succ n ih =>
    refine .bind (tracks_eat h .rightBracket) fun close => ?_
    cases close with
    | some close => exact tracks_pure rfl
    | none =>
      refine .bind hv fun first => .bind (tracks_eat h .comma) fun comma => ?_
      cases comma with
      | some r => exact .bind ih fun rest => tracks_pure rfl
      | none => exact .bind (tracks_expect h .rightBracket _) fun close => tracks_pure rfl

theorem tracks_value (n : Nat) :
    Tracks f R (value n) (value n) (Located.move (.renumber f)) := by
  induction n with
  | zero => exact tracks_fail h
  | succ n ih =>
    refine .bind (tracks_eat h .leftBracket) fun opening => ?_
    cases opening with
    | some opening => exact .bind (tracks_listRest h ih n) fun rest => tracks_pure rfl
    | none =>
      refine .bind (tracks_signed h literal?) fun found => ?_
      match found with
      | .inl l => exact tracks_pure rfl
      | .inr true => exact tracks_fail h
      | .inr false =>
        refine .bind (.attempt (tracks_qualifiedName h)) fun name => ?_
        cases name with
        | some name => exact tracks_pure rfl
        | none => exact tracks_fail h

/-- The argument with other numbers for its tokens. -/
abbrev renumberArgument (f : Nat → Nat) :
    Located TokenRange Name × Located TokenRange Value →
      Located TokenRange Name × Located TokenRange Value :=
  Prod.map (Located.move (.renumber f)) (Located.move (.renumber f))

theorem tracks_positional :
    Tracks f R argument.positional argument.positional (renumberArgument f) :=
  .bind (tracks_remaining h) fun n => .bind (tracks_value h n) fun _ => tracks_pure rfl

theorem tracks_argument : Tracks f R argument argument (renumberArgument f) := by
  refine .bind (tracks_peekSecond h) fun second => .ite ?_ (tracks_positional h)
  refine .bind (tracks_word? h) fun name => ?_
  cases name with
  | none => exact tracks_positional h
  | some name =>
    exact .bind (tracks_advance h) fun _ => .bind (tracks_remaining h) fun n =>
      .bind (tracks_value h n) fun _ => tracks_pure rfl

theorem tracks_arguments (n : Nat) :
    Tracks f R (arguments n) (arguments n) (List.map (renumberArgument f)) := by
  induction n with
  | zero => exact tracks_fail h
  | succ n ih =>
    refine .bind (tracks_argument h) fun first => .bind (tracks_eat h .comma) fun comma => ?_
    cases comma with
    | some r => exact .bind ih fun more => tracks_pure rfl
    | none => exact tracks_pure rfl

theorem tracks_tag : Tracks f R tag tag (TagItem.move (.renumber f)) := by
  refine .bind (tracks_expect h .atSign _) fun _ => .bind (tracks_qualifiedName h) fun name =>
    .bind (tracks_eat h .leftParen) fun opening => ?_
  cases opening with
  | none => exact tracks_pure rfl
  | some opening =>
    refine .bind (tracks_eat h .rightParen) fun close => ?_
    cases close with
    | some close => exact tracks_pure rfl
    | none =>
      exact .bind (tracks_remaining h) fun n => .bind (tracks_arguments h n) fun arguments =>
        .bind (tracks_expect h .rightParen _) fun _ => tracks_pure rfl

theorem tracks_tags (n : Nat) :
    Tracks f R (tags n) (tags n) (List.map (TagItem.move (.renumber f))) := by
  induction n with
  | zero => exact tracks_pure rfl
  | succ n ih =>
    exact .bind (tracks_sees h .atSign) fun _ =>
      .ite (.bind (tracks_tag h) fun first => .bind ih fun more => tracks_pure rfl)
        (tracks_pure rfl)

theorem tracks_typesBy {p : ParserOn σ (Located TokenRange TypeRef)}
    {q : ParserOn τ (Located TokenRange TypeRef)}
    (hp : Tracks f R p q (Located.move (.renumber f))) (n : Nat) :
    Tracks f R (typesBy p n) (typesBy q n) id := by
  induction n with
  | zero => exact tracks_fail h
  | succ n ih =>
    refine .bind hp fun first => .bind (tracks_eat h .comma) fun comma => ?_
    cases comma with
    | some r => exact .bind ih fun more => tracks_pure rfl
    | none => exact tracks_pure rfl

theorem tracks_mark (name : Name) (pos : TokenRange) (arguments : List TypeRef) :
    Tracks f R (type.mark name (pos.renumber f) arguments) (type.mark name pos arguments)
      (Located.move (.renumber f)) := by
  refine .bind (tracks_eat h .question) fun question => ?_
  cases question with
  | some question => exact tracks_pure rfl
  | none => exact tracks_pure rfl

theorem tracks_type (n : Nat) : Tracks f R (type n) (type n) (Located.move (.renumber f)) := by
  induction n with
  | zero => exact tracks_fail h
  | succ n ih =>
    refine .bind (tracks_qualifiedName h) fun name => .bind (tracks_eat h .less) fun less => ?_
    cases less with
    | none => exact tracks_mark h name.val name.pos []
    | some r =>
      exact .bind (tracks_typesBy h ih n) fun arguments =>
        .bind (tracks_expect h .greater _) fun close =>
          tracks_mark h name.val (name.pos.upTo close) arguments

theorem tracks_defaultValue :
    Tracks f R defaultValue defaultValue (Located.move (.renumber f)) := by
  refine .bind (tracks_signed h default?) fun found => ?_
  cases found with
  | inl d => exact tracks_pure rfl
  | inr minus => exact tracks_fail h

/-! ### Items -/

theorem tracks_userItem (tags : List (TagItem TokenRange)) (name : Located TokenRange Name) :
    Tracks f R (userItem (tags.map (TagItem.move (.renumber f))) (name.move (.renumber f)))
      (userItem tags name) (Item.move (.renumber f)) := by
  refine .bind (tracks_expect h .colon _) fun _ => .bind (tracks_remaining h) fun n =>
    .bind (tracks_type h n) fun type => .bind (tracks_eat h .equals) fun equals => ?_
  cases equals with
  | some r =>
    refine .bind (tracks_defaultValue h) fun value => tracks_pure ?_
    simp only [Item.move, UserItem.move, Option.map_some]
  | none =>
    refine tracks_pure ?_
    simp only [Item.move, UserItem.move, Option.map_none]

theorem tracks_parenthesized :
    Tracks f R parenthesized parenthesized (Located.move (.renumber f)) :=
  .bind (tracks_expect h .leftParen _) fun _ => .bind (tracks_word h) fun _ =>
    .bind (tracks_expect h .rightParen _) fun _ => tracks_pure rfl

theorem tracks_patternText : Tracks f R patternText patternText id := by
  refine .bind (tracks_word? h) fun found => ?_
  cases found with
  | none => exact tracks_pure rfl
  | some w =>
    simp only [Option.map_some, Located.move]
    cases AliasPattern.withoutTail? ['$'] w.val.toList with
    | none => exact tracks_pure rfl
    | some rest => exact tracks_pure rfl

theorem tracks_pattern (keyword : TokenRange) :
    Tracks f R (pattern (keyword.renumber f)) (pattern keyword) (Located.move (.renumber f)) := by
  refine .bind (tracks_expect h .leftParen _) fun _ => .bind (tracks_eat h .caret) fun caret =>
    .bind (tracks_patternText h) fun text => ?_
  have hcaret : (caret.map (TokenRange.renumber f)).isSome = caret.isSome := Option.isSome_map
  simp only [hcaret]
  refine .ite (tracks_fail h) (.bind (tracks_expect h .arrow _) fun _ =>
    .bind (tracks_word? h) fun replacement => ?_)
  have hval : (replacement.map (Located.move (TokenRange.renumber f))).map (·.val) =
      replacement.map (·.val) := by
    cases replacement <;> rfl
  simp only [hval]
  exact .ite (tracks_fail h) (.bind (tracks_expect h .rightParen _) fun close => tracks_pure rfl)

theorem tracks_selected (name : Located TokenRange Name) :
    Tracks f R (selected (name.move (.renumber f))) (selected name)
      (Selected.move (.renumber f)) := by
  refine .bind (tracks_eat h .star) fun star => .bind (tracks_markedAlias h) fun marks =>
    tracks_pure ?_
  cases star <;> rfl

theorem tracks_wordItem {p : ParserOn σ (Body TokenRange)} {q : ParserOn τ (Body TokenRange)}
    (hbody : Tracks f R p q (Body.move (.renumber f))) (name : Located TokenRange Name) :
    Tracks f R (wordItem p (name.move (.renumber f))) (wordItem q name)
      (Item.move (.renumber f)) := by
  refine .bind (tracks_sees h .leftParen) fun called => .bind (tracks_sees h .colon) fun typed =>
    .ite (tracks_userItem h [] name) (.ite ?_ (.ite ?_ ?_))
  · refine .bind (tracks_parenthesized h) fun property => .bind (tracks_newName h) fun lead =>
      .bind hbody fun body => tracks_pure ?_
    simp only [Item.move, Body.move]
  · refine .bind (tracks_parenthesized h) fun property =>
      .bind (tracks_markedAlias h) fun marks => tracks_pure ?_
    simp only [Item.move]
  · refine .bind (tracks_selected h name) fun head => .bind (tracks_sees h .leftBrace) fun opened =>
      .ite (.bind hbody fun body => tracks_pure ?_) (tracks_pure ?_)
    · simp only [Item.move, Body.move]
    · simp only [Item.move]

theorem tracks_item {p : ParserOn σ (Body TokenRange)} {q : ParserOn τ (Body TokenRange)}
    (hbody : Tracks f R p q (Body.move (.renumber f))) :
    Tracks f R (item p) (item q) (Item.move (.renumber f)) := by
  refine .bind (tracks_peek h) fun next => ?_
  rw [id]
  split
  · exact .bind (tracks_remaining h) fun n => .bind (tracks_tags h n) fun tags =>
      .bind (tracks_word h) fun name => tracks_userItem h tags name
  · refine .bind (tracks_advance h) fun keyword => .bind (tracks_pattern h keyword) fun pattern =>
      .bind hbody fun body => tracks_pure ?_
    simp only [Item.move, Body.move]
  · refine .bind (tracks_advance h) fun hash => .bind (tracks_word h) fun name =>
      .bind (tracks_nullability h) fun mark => tracks_pure ?_
    simp only [Item.move]
    rfl
  · refine .bind (tracks_advance h) fun _ => .bind (tracks_word h) fun name => tracks_pure ?_
    simp only [Item.move]
  · refine .bind (tracks_word? h) fun name => ?_
    cases name with
    | some name => exact tracks_wordItem h hbody name
    | none => exact tracks_fail h

theorem tracks_itemsRest {p : ParserOn σ (Item TokenRange)} {q : ParserOn τ (Item TokenRange)}
    (hitem : Tracks f R p q (Item.move (.renumber f))) (n : Nat) :
    Tracks f R (itemsRest p n) (itemsRest q n)
      (Prod.map (Item.moveAll (.renumber f)) (.renumber f)) := by
  induction n with
  | zero => exact tracks_fail h
  | succ n ih =>
    refine .bind (tracks_eat h .rightBrace) fun close => ?_
    cases close with
    | some close => exact tracks_pure rfl
    | none =>
      exact .bind hitem fun first => .bind (tracks_eat h .comma) fun _ =>
        .bind ih fun rest => tracks_pure rfl

theorem tracks_body (n : Nat) : Tracks f R (body n) (body n) (Body.move (.renumber f)) := by
  induction n with
  | zero => exact tracks_fail h
  | succ n ih =>
    exact .bind (tracks_expect h .leftBrace _) fun opening =>
      .bind (tracks_itemsRest h (tracks_item h ih) n) fun rest => tracks_pure rfl

/-! ### Declarations -/

theorem tracks_headerWords (n : Nat) (name : Located TokenRange Name) :
    Tracks f R (headerWords n (name.move (.renumber f))) (headerWords n name)
      (Prod.map (List.map (Located.move (.renumber f))) (Located.move (.renumber f))) := by
  induction n generalizing name with
  | zero => exact tracks_pure rfl
  | succ n ih =>
    refine .bind (tracks_word? h) fun next => ?_
    cases next with
    | none => exact tracks_pure rfl
    | some next => exact .bind (ih next) fun rest => tracks_pure rfl

theorem tracks_defaultWords (n : Nat) :
    Tracks f R (defaultWords n) (defaultWords n) (List.map (Located.move (.renumber f))) := by
  induction n with
  | zero => exact tracks_pure rfl
  | succ n ih =>
    refine .bind (tracks_eat h .comma) fun _ => .bind (tracks_peek h) fun next => ?_
    cases next with
    | none => exact tracks_pure rfl
    | some t =>
      cases t with
      | word name =>
        exact .ite (.bind (tracks_word h) fun w => .bind ih fun more => tracks_pure rfl)
          (tracks_pure rfl)
      | _ => exact tracks_pure rfl

omit [TokenStream σ] [TokenStream τ] h in
theorem tracks_modifiers (words : List (Located TokenRange Name)) :
    Tracks f R (modifiers (words.map (Located.move (.renumber f)))) (modifiers words)
      (List.map (Located.move (.renumber f))) := by
  induction words with
  | nil => exact tracks_pure rfl
  | cons w ws ih =>
    have hval : (w.move (TokenRange.renumber f)).val = w.val := rfl
    rw [List.map_cons, modifiers, modifiers, hval]
    cases Modifier.ofWord? w.val with
    | some m => exact .bind ih fun more => tracks_pure rfl
    | none => exact fun s t _ => .error (.unknownModifier w)

theorem tracks_declaration (tags : List (TagItem TokenRange))
    (words : List (Located TokenRange Name)) (name : Located TokenRange Name) :
    Tracks f R (declaration (tags.map (TagItem.move (.renumber f)))
        (words.map (Located.move (.renumber f))) (name.move (.renumber f)))
      (declaration tags words name) (Declaration.move (.renumber f)) := by
  refine .within (.bind (tracks_modifiers words) fun modifiers => ?_) name.val
  exact .bind (tracks_remaining h) fun n => .bind (tracks_body h n) fun body =>
    .bind (tracks_eat h .semicolon) fun _ => tracks_pure rfl

/-- The statement with other numbers for its tokens. -/
def Statement.renumber (f : Nat → Nat) : Statement → Statement
  | defaults modifiers => defaults (modifiers.map (Located.move (.renumber f)))
  | declaration d => declaration (d.move (.renumber f))

theorem tracks_defaultStatement (first : Located TokenRange Name) :
    Tracks f R (defaultStatement (first.move (.renumber f))) (defaultStatement first)
      (Statement.renumber f) := by
  refine .bind (tracks_remaining h) fun n => .bind (tracks_defaultWords h n) fun words =>
    .bind (tracks_sees h .leftBrace) fun opened => .ite ?_ ?_
  · have hlast : (words.map (Located.move (TokenRange.renumber f))).getLast?.getD
        (first.move (.renumber f)) = (words.getLast?.getD first).move (.renumber f) := by
      rw [List.getLast?_map]
      cases words.getLast? <;> rfl
    have hwords : (first.move (TokenRange.renumber f) ::
          words.map (Located.move (TokenRange.renumber f))).dropLast =
        (first :: words).dropLast.map (Located.move (TokenRange.renumber f)) := by
      rw [← List.map_cons, List.map_dropLast]
    simp only [hlast, hwords]
    exact .bind (tracks_declaration h [] _ _) fun d => tracks_pure rfl
  · exact .bind (tracks_eat h .semicolon) fun _ => .bind (tracks_modifiers words) fun _ =>
      tracks_pure rfl

theorem tracks_statement : Tracks f R statement statement (Statement.renumber f) := by
  refine .bind (tracks_remaining h) fun n => .bind (tracks_tags h n) fun tags =>
    .bind (tracks_word? h) fun first => ?_
  cases first with
  | none => exact tracks_fail h
  | some first =>
    have hempty : (tags.map (TagItem.move (TokenRange.renumber f))).isEmpty = tags.isEmpty :=
      List.isEmpty_map
    simp only [hempty]
    exact .ite (tracks_defaultStatement h first) (.bind (tracks_remaining h) fun m =>
      .bind (tracks_headerWords h m first) fun header => .bind (tracks_sees h .leftBrace) fun _ =>
        .ite (.bind (tracks_declaration h tags header.1 header.2) fun d => tracks_pure rfl)
          (tracks_fail h))

theorem tracks_statements (n : Nat) :
    Tracks f R (statements n) (statements n) (List.map (Statement.renumber f)) := by
  induction n with
  | zero => exact tracks_pure rfl
  | succ n ih =>
    refine .bind (tracks_peek h) fun next => ?_
    cases next with
    | none => exact tracks_pure rfl
    | some t =>
      exact .bind (tracks_statement h) fun first => .bind ih fun more => tracks_pure rfl

theorem tracks_exported : Tracks f R exported exported (Located.move (.renumber f)) := by
  refine .bind (tracks_eatToken h _) fun found => ?_
  cases found with
  | none => exact tracks_fail h
  | some r =>
    exact .bind (tracks_qualifiedName h) fun entity => .bind (tracks_eat h .semicolon) fun _ =>
      tracks_pure rfl

theorem tracks_source : Tracks f R source source (Source.move (.renumber f)) := by
  refine .bind (tracks_exported h) fun entity => .bind (tracks_remaining h) fun n =>
    .bind (tracks_statements h n) fun statements => tracks_pure ?_
  have hmodifiers : (fun a => (Statement.renumber f a).modifiers) =
      fun a => a.modifiers.map (Located.move (.renumber f)) := by
    funext a
    cases a <;> rfl
  have hdeclarations : (Statement.declaration? ∘ Statement.renumber f) =
      fun a => a.declaration?.map (Declaration.move (.renumber f)) := by
    funext a
    cases a <;> rfl
  rw [Source.move, List.flatMap_map, hmodifiers, List.map_flatMap, List.filterMap_map,
    hdeclarations, List.map_filterMap]

end Parser

end Projection
