import Projection.Proofs.Success
import Projection.Proofs.Source.Trivia

/-!
# What parsers leave

`Parser.Takes p Q` says that whatever the parser `p` answers, it has taken some tokens from the
front of those ahead and counted them, and that `Q` holds for these tokens and the answer. A parser
takes what its parts take one after the other (`Takes.bind`), so the proofs follow the text of the
parsers.

Most parsers need no more than that they take tokens from the front (`Parser.Advances`): then the
tokens that are ahead later were ahead at the start. So the names of declared types are words among
the tokens of a source (`Source.word_mem_of_ofSignificant`), and the lexer makes words of
identifiers only (`Source.isIdentifier_of_parse`).
-/

namespace Projection

/-- The cursor behind the next `n` tokens. -/
def Cursor.skip (c : Cursor) (n : Nat) : Cursor :=
  ⟨c.ahead.drop n, c.index + n⟩

theorem Cursor.skip_skip (c : Cursor) (n m : Nat) : (c.skip n).skip m = c.skip (n + m) := by
  simp only [skip, List.drop_drop, Nat.add_assoc]

theorem Cursor.skip_one (c : Cursor) : c.skip 1 = TokenStream.tail c := by
  rw [skip, List.drop_one]
  rfl

theorem Cursor.skip_one_of_cons {c : Cursor} {t : Token} {rest : List Token}
    (h : c.ahead = t :: rest) : c.skip 1 = ⟨rest, c.index + 1⟩ := by
  rw [skip, h]
  rfl

namespace Parser

variable {α β : Type}

/-- The parser takes tokens from the front, and they and the answer have the property. -/
def Takes (p : Parser α) (Q : List Token → α → Prop) : Prop :=
  ∀ c a c', p c = .ok (a, c') → ∃ n, c' = c.skip n ∧ Q (c.ahead.take n) a

/-- The parser takes tokens from the front. -/
abbrev Advances (p : Parser α) : Prop :=
  Takes p fun _ _ => True

section Rules

variable {p : Parser α} {k : α → Parser β} {Q Q' : List Token → α → Prop}
  {R : α → List Token → β → Prop} {S : List Token → β → Prop}

theorem Takes.exists_append (h : Takes p Q) {c c' : Cursor} {a : α} (hp : p c = .ok (a, c')) :
    ∃ taken, c.ahead = taken ++ c'.ahead ∧ Q taken a := by
  obtain ⟨n, rfl, hq⟩ := h c a c' hp
  exact ⟨c.ahead.take n, (List.take_append_drop n c.ahead).symm, hq⟩

theorem Takes.mono (h : Takes p Q) (hQ : ∀ taken a, Q taken a → Q' taken a) : Takes p Q' := by
  intro c a c' hp
  obtain ⟨n, hskip, hq⟩ := h c a c' hp
  exact ⟨n, hskip, hQ _ a hq⟩

theorem takes_pure {a : α} (h : Q [] a) : Takes (pure a) Q := by
  intro c a' c' hp
  cases hp
  exact ⟨0, rfl, h⟩

theorem takes_throw (fault : SyntaxFault TokenRange) : Takes (throw fault : Parser α) Q := by
  intro c a c' hp
  cases hp

theorem takes_fail (expected : Expected) : Takes (fail expected) Q := by
  intro c a c' hp
  rw [fail] at hp
  split at hp <;> cases hp

theorem Takes.within (h : Takes p Q) {name : Name} : Takes (within name p) Q :=
  fun c a c' hp => h c a c' (within_eq_ok.mp hp)

/-- One parser after another. -/
theorem Takes.bind (hp : Takes p Q) (hk : ∀ a, Takes (k a) (R a))
    (hS : ∀ first a second b, Q first a → R a second b → S (first ++ second) b) :
    Takes (p >>= k) S := by
  intro c b c' h
  obtain ⟨⟨a, between⟩, hfirst, hsecond⟩ := bind_eq_ok.mp h
  obtain ⟨n, rfl, hq⟩ := hp c a between hfirst
  obtain ⟨m, rfl, hr⟩ := hk a _ b c' hsecond
  refine ⟨n + m, c.skip_skip n m, ?_⟩
  rw [List.take_add]
  exact hS _ a _ b hq hr

theorem Takes.seq (hp : Takes p Q) (hk : ∀ a, Advances (k a)) : Advances (p >>= k) :=
  hp.bind hk fun _ _ _ _ _ _ => trivial

/-- A parser that may answer nothing, and another for each case. -/
theorem Takes.either {p : Parser (Option α)} {k : Option α → Parser β}
    {Q : List Token → Option α → Prop} (hp : Takes p Q) (hnone : Advances (k none))
    (hsome : ∀ a, Advances (k (some a))) : Advances (p >>= k) := by
  refine hp.seq fun found => ?_
  cases found with
  | none => exact hnone
  | some a => exact hsome a

/-- A parser before another takes nothing away from what the second gives. -/
theorem Takes.after (hp : Takes p Q) (hk : ∀ a, Takes (k a) S)
    (hS : ∀ first second b, S second b → S (first ++ second) b) : Takes (p >>= k) S :=
  hp.bind hk fun first _ second b _ hsecond => hS first second b hsecond

end Rules

/-! ### One token -/

theorem advances_remaining : Advances remaining := by
  intro c a c' h
  cases h
  exact ⟨0, rfl, trivial⟩

theorem advances_peek : Advances peek := by
  intro c a c' h
  cases h
  exact ⟨0, rfl, trivial⟩

theorem advances_peekSecond : Advances peekSecond := by
  intro c a c' h
  cases h
  exact ⟨0, rfl, trivial⟩

theorem advances_sees (s : Symbol) : Advances (sees s) := by
  intro c a c' h
  cases h
  exact ⟨0, rfl, trivial⟩

theorem advances_advance : Advances advance := by
  intro c a c' h
  cases h
  exact ⟨1, c.skip_one.symm, trivial⟩

theorem advances_eatToken (t : Token) : Advances (eatToken t) := by
  refine .seq advances_peek fun found => ?_
  split
  · exact .seq advances_advance fun r => takes_pure trivial
  · exact takes_pure trivial

theorem advances_eat (s : Symbol) : Advances (eat s) :=
  advances_eatToken (.symbol s)

theorem advances_expect (s : Symbol) (expected : Expected) : Advances (expect s expected) :=
  .either (advances_eat s) (takes_fail expected) fun _ => takes_pure trivial

/-- A word that is taken is among the tokens taken. -/
theorem takes_word? :
    Takes word? fun taken w => ∀ name, w = some name → .word name.val ∈ taken := by
  rintro ⟨ahead, index⟩ w c' h
  cases ahead with
  | nil =>
    cases h
    exact ⟨0, rfl, nofun⟩
  | cons t ahead =>
    cases t with
    | word text =>
      cases h
      refine ⟨1, rfl, fun name hname => ?_⟩
      cases hname
      exact List.mem_singleton.mpr rfl
    | _ =>
      cases h
      exact ⟨0, rfl, nofun⟩

theorem takes_word : Takes word fun taken name => .word name.val ∈ taken := by
  refine .bind takes_word? (R := fun w taken name => w = some name ∧ taken = []) (fun w => ?_) ?_
  · cases w with
    | none => exact takes_fail .identifier
    | some name => exact takes_pure ⟨rfl, rfl⟩
  · rintro first w second name hword ⟨rfl, rfl⟩
    rw [List.append_nil]
    exact hword name rfl

theorem advances_attempt {p : Parser α} (hp : Advances p) : Advances (attempt p) := by
  intro c a c' h
  rw [attempt] at h
  split at h
  · rename_i hanswer
    cases h
    exact hp _ _ _ hanswer
  · cases h
    exact ⟨0, rfl, trivial⟩

/-! ### Names, marks and aliases -/

theorem advances_moreSegments (n : Nat) (name : Located TokenRange Name) :
    Advances (moreSegments n name) := by
  induction n generalizing name with
  | zero => exact takes_pure trivial
  | succ n ih =>
    exact .either (advances_eat .dot) (takes_pure trivial)
      fun _ => .seq takes_word fun segment => ih _

theorem advances_qualifiedName : Advances qualifiedName :=
  .seq takes_word fun first => .seq advances_remaining fun n => advances_moreSegments n first

theorem advances_nullability : Advances nullability :=
  .either (advances_eat .question) (.seq (advances_eat .bang) fun _ => takes_pure trivial)
    fun _ => takes_pure trivial

theorem advances_newName : Advances newName := by
  refine .seq advances_peek fun next => .seq advances_peekSecond fun second => ?_
  split
  · exact .seq advances_advance fun r => .seq takes_word fun name => takes_pure trivial
  · exact takes_pure trivial

theorem advances_markedAlias : Advances markedAlias := by
  refine .either advances_nullability ?_ fun mark => ?_
  · exact .seq advances_newName fun name => .seq advances_nullability fun mark => takes_pure trivial
  · exact .seq advances_newName fun name => takes_pure trivial

/-! ### Values and types -/

theorem advances_signed (read : Bool → Token → Option α) : Advances (signed read) := by
  refine .seq (advances_eat .minus) fun minus => .seq advances_peek fun next => ?_
  cases next.bind (read minus.isSome) with
  | none => exact takes_pure trivial
  | some a => exact .seq advances_advance fun r => takes_pure trivial

theorem advances_listRest {value : Parser (Located TokenRange Value)} (hvalue : Advances value)
    (n : Nat) : Advances (listRest value n) := by
  induction n with
  | zero => exact takes_fail .annotationValue
  | succ n ih =>
    refine .either (advances_eat .rightBracket) ?_ fun close => takes_pure trivial
    exact .seq hvalue fun first => .either (advances_eat .comma)
      (.seq (advances_expect .rightBracket _) fun r => takes_pure trivial)
      fun comma => .seq ih fun rest => takes_pure trivial

theorem advances_value (n : Nat) : Advances (value n) := by
  induction n with
  | zero => exact takes_fail .annotationValue
  | succ n ih =>
    refine .either (advances_eat .leftBracket) ?_ fun opening =>
      .seq (advances_listRest ih n) fun rest => takes_pure trivial
    refine .seq (advances_signed literal?) fun read => ?_
    match read with
    | .inl l => exact takes_pure trivial
    | .inr true => exact takes_fail .annotationValue
    | .inr false =>
      exact .either (advances_attempt advances_qualifiedName) (takes_fail .annotationValue)
        fun name => takes_pure trivial

theorem advances_argument : Advances argument := by
  have hpositional : Advances argument.positional :=
    .seq advances_remaining fun n => .seq (advances_value n) fun v => takes_pure trivial
  refine .seq advances_peekSecond fun second => ?_
  split
  · exact .either takes_word? hpositional fun name => .seq advances_advance fun r =>
      .seq advances_remaining fun n => .seq (advances_value n) fun v => takes_pure trivial
  · exact hpositional

theorem advances_arguments (n : Nat) : Advances (arguments n) := by
  induction n with
  | zero => exact takes_fail .annotationValue
  | succ n ih =>
    exact .seq advances_argument fun first => .either (advances_eat .comma) (takes_pure trivial)
      fun comma => .seq ih fun rest => takes_pure trivial

theorem advances_tag : Advances tag := by
  refine .seq (advances_expect .atSign _) fun r => .seq advances_qualifiedName fun name =>
    .either (advances_eat .leftParen) (takes_pure trivial) fun opening =>
      .either (advances_eat .rightParen) ?_ fun close => takes_pure trivial
  exact .seq advances_remaining fun n => .seq (advances_arguments n) fun arguments =>
    .seq (advances_expect .rightParen _) fun r => takes_pure trivial

theorem advances_tags (n : Nat) : Advances (tags n) := by
  induction n with
  | zero => exact takes_pure trivial
  | succ n ih =>
    refine .seq (advances_sees .atSign) fun found => ?_
    split
    · exact .seq advances_tag fun first => .seq ih fun rest => takes_pure trivial
    · exact takes_pure trivial

theorem advances_typesBy {type : Parser (Located TokenRange TypeRef)} (htype : Advances type)
    (n : Nat) : Advances (typesBy type n) := by
  induction n with
  | zero => exact takes_fail .identifier
  | succ n ih =>
    exact .seq htype fun first => .either (advances_eat .comma) (takes_pure trivial)
      fun comma => .seq ih fun rest => takes_pure trivial

theorem advances_type (n : Nat) : Advances (type n) := by
  have hmark : ∀ name pos arguments, Advances (type.mark name pos arguments) :=
    fun name pos arguments =>
      .either (advances_eat .question) (takes_pure trivial) fun question => takes_pure trivial
  induction n with
  | zero => exact takes_fail .identifier
  | succ n ih =>
    refine .seq advances_qualifiedName fun name => .either (advances_eat .less) (hmark _ _ _) ?_
    exact fun opening => .seq (advances_typesBy ih n) fun arguments =>
      .seq (advances_expect .greater _) fun close => hmark _ _ _

theorem advances_defaultValue : Advances defaultValue := by
  refine .seq (advances_signed default?) fun read => ?_
  cases read with
  | inl d => exact takes_pure trivial
  | inr minus => exact takes_fail .defaultValue

/-! ### Items -/

theorem advances_userItem (tags : List (TagItem TokenRange)) (name : Located TokenRange Name) :
    Advances (userItem tags name) := by
  refine .seq (advances_expect .colon _) fun r => .seq advances_remaining fun n =>
    .seq (advances_type n) fun type => .either (advances_eat .equals) (takes_pure trivial) ?_
  exact fun sign => .seq advances_defaultValue fun value => takes_pure trivial

theorem advances_parenthesized : Advances parenthesized :=
  .seq (advances_expect .leftParen _) fun _ => .seq takes_word fun _ =>
    .seq (advances_expect .rightParen _) fun _ => takes_pure trivial

theorem advances_patternText : Advances patternText := by
  refine .either takes_word? (takes_pure trivial) fun w => ?_
  dsimp only
  split <;> exact takes_pure trivial

theorem advances_pattern (keyword : TokenRange) : Advances (pattern keyword) := by
  refine .seq (advances_expect .leftParen _) fun r => .seq (advances_eat .caret) fun caret =>
    .seq advances_patternText fun text => ?_
  obtain ⟨sought, atEnd⟩ := text
  dsimp only
  split
  · exact takes_fail .patternText
  · refine .seq (advances_expect .arrow _) fun r => .seq takes_word? fun replacement => ?_
    split
    · exact takes_fail .replacement
    · exact .seq (advances_expect .rightParen _) fun close => takes_pure trivial

theorem advances_selected (name : Located TokenRange Name) : Advances (selected name) :=
  .seq (advances_eat .star) fun _ => .seq advances_markedAlias fun _ => takes_pure trivial

theorem advances_wordItem {body : Parser (Body TokenRange)} (hbody : Advances body)
    (name : Located TokenRange Name) : Advances (wordItem body name) := by
  refine .seq (advances_sees .leftParen) fun called => .seq (advances_sees .colon) fun typed => ?_
  split
  · exact advances_userItem [] name
  · split
    · exact .seq advances_parenthesized fun property => .seq advances_newName fun lead =>
        .seq hbody fun body => takes_pure trivial
    · split
      · exact .seq advances_parenthesized fun property => .seq advances_markedAlias fun marks =>
          takes_pure trivial
      · refine .seq (advances_selected name) fun head =>
          .seq (advances_sees .leftBrace) fun opened => ?_
        split
        · exact .seq hbody fun body => takes_pure trivial
        · exact takes_pure trivial

theorem advances_item {body : Parser (Body TokenRange)} (hbody : Advances body) :
    Advances (item body) := by
  refine .seq advances_peek fun next => ?_
  split
  · exact .seq advances_remaining fun n => .seq (advances_tags n) fun tags =>
      .seq takes_word fun name => advances_userItem tags name
  · exact .seq advances_advance fun keyword => .seq (advances_pattern keyword) fun pattern =>
      .seq hbody fun body => takes_pure trivial
  · exact .seq advances_advance fun hash => .seq takes_word fun name =>
      .seq advances_nullability fun mark => takes_pure trivial
  · exact .seq advances_advance fun r => .seq takes_word fun name => takes_pure trivial
  · exact .either takes_word? (takes_fail .item) fun name => advances_wordItem hbody name

theorem advances_itemsRest {item : Parser (Item TokenRange)} (hitem : Advances item) (n : Nat) :
    Advances (itemsRest item n) := by
  induction n with
  | zero => exact takes_fail .item
  | succ n ih =>
    refine .either (advances_eat .rightBrace) ?_ fun close => takes_pure trivial
    exact .seq hitem fun first => .seq (advances_eat .comma) fun comma => .seq ih fun rest =>
      takes_pure trivial

theorem advances_body (n : Nat) : Advances (body n) := by
  induction n with
  | zero => exact takes_fail (.symbol .leftBrace)
  | succ n ih =>
    exact .seq (advances_expect .leftBrace _) fun opening =>
      .seq (advances_itemsRest (advances_item ih) n) fun rest => takes_pure trivial

/-! ### Declarations -/

theorem takes_headerWords (n : Nat) (name : Located TokenRange Name) :
    Takes (headerWords n name) fun taken words => words.2 = name ∨ .word words.2.val ∈ taken := by
  induction n generalizing name with
  | zero => exact takes_pure (.inl rfl)
  | succ n ih =>
    refine .bind takes_word? (R := fun next taken words =>
      words.2 = name ∨ next = some words.2 ∨ .word words.2.val ∈ taken) (fun found => ?_) ?_
    · cases found with
      | none => exact takes_pure (.inl rfl)
      | some next =>
        refine (ih next).bind (R := fun rest _ words => words.2 = rest.2)
          (fun rest => takes_pure rfl) ?_
        rintro first rest second words hrest hwords
        rw [hwords]
        rcases hrest with hrest | hrest
        · exact .inr (.inl (congrArg some hrest.symm))
        · exact .inr (.inr (List.mem_append_left _ hrest))
    · -- The last word is the one before, the next one, or one of those after it.
      rintro first next second words hnext (hwords | hwords | hwords)
      · exact .inl hwords
      · exact .inr (List.mem_append_left _ (hnext _ hwords))
      · exact .inr (List.mem_append_right _ hwords)

theorem takes_defaultWords (n : Nat) :
    Takes (defaultWords n) fun taken words => ∀ w ∈ words, .word w.val ∈ taken := by
  have hnone : Takes (pure []) fun taken words =>
      ∀ w ∈ (words : List (Located TokenRange Name)), .word w.val ∈ taken := takes_pure nofun
  have hlater : ∀ (first second : List Token) (words : List (Located TokenRange Name)),
      (∀ w ∈ words, .word w.val ∈ second) → ∀ w ∈ words, .word w.val ∈ first ++ second :=
    fun _ _ _ h w hw => List.mem_append_right _ (h w hw)
  induction n with
  | zero => exact hnone
  | succ n ih =>
    refine .after (advances_eat .comma) (fun comma => ?_) hlater
    refine .after advances_peek (fun next => ?_) hlater
    split
    · split
      · refine .bind takes_word (fun w => .bind ih (R := fun rest _ words => words = w :: rest)
          (fun rest => takes_pure rfl) (S := fun taken words =>
            ∃ rest, words = w :: rest ∧ ∀ w ∈ rest, .word w.val ∈ taken) ?_) ?_
        · rintro first rest second words hrest rfl
          exact ⟨rest, rfl, fun w hw => List.mem_append_left _ (hrest w hw)⟩
        · rintro first w second words hfirst ⟨rest, rfl, hrest⟩ other hother
          rcases List.mem_cons.mp hother with rfl | hother
          · exact List.mem_append_left _ hfirst
          · exact List.mem_append_right _ (hrest other hother)
      · exact hnone
    · exact hnone

theorem advances_modifiers (words : List (Located TokenRange Name)) :
    Advances (modifiers words) := by
  induction words with
  | nil => exact takes_pure trivial
  | cons w words ih =>
    rw [modifiers]
    cases Modifier.ofWord? w.val with
    | none => exact takes_throw _
    | some m => exact .seq ih fun rest => takes_pure trivial

/-- A declaration has the name of its header. -/
theorem takes_declaration (tags : List (TagItem TokenRange))
    (words : List (Located TokenRange Name)) (name : Located TokenRange Name) :
    Takes (declaration tags words name) fun _ d => d.name = name := by
  -- Whatever is read on the way, the name was read before.
  have hlater : ∀ (first second : List Token) (d : Declaration TokenRange), d.name = name →
      d.name = name := fun _ _ _ h => h
  refine .within (.after (advances_modifiers words) (fun modifiers => ?_) hlater)
  exact .after advances_remaining (fun n => .after (advances_body n) (fun body =>
    .after (advances_eat .semicolon) (fun found => takes_pure rfl) hlater) hlater) hlater

/-- The statement declares no type, or one that is named by a word among the tokens. -/
def NamedIn (tokens : List Token) (s : Statement) : Prop :=
  ∀ d, s.declaration? = some d → .word d.name.val ∈ tokens

theorem NamedIn.mono {tokens more : List Token} {s : Statement} (h : NamedIn tokens s)
    (hmore : tokens ⊆ more) : NamedIn more s :=
  fun d hd => hmore (h d hd)

/-- A type that the statement declares has the name. -/
def Declares (name : Located TokenRange Name) (s : Statement) : Prop :=
  ∀ d, s.declaration? = some d → d.name = name

theorem takes_declared (tags : List (TagItem TokenRange)) (words : List (Located TokenRange Name))
    (name : Located TokenRange Name) :
    Takes (do return .declaration (← declaration tags words name)) fun _ s => Declares name s := by
  refine .bind (takes_declaration tags words name) (R := fun d _ s => s = .declaration d)
    (fun d => takes_pure rfl) ?_
  rintro _ d _ s hname rfl d' hd'
  cases hd'
  exact hname

theorem takes_defaultStatement (first : Located TokenRange Name) :
    Takes (defaultStatement first) fun taken s => NamedIn (.word first.val :: taken) s := by
  refine .after advances_remaining (fun n => ?_) fun more taken s h =>
    h.mono (List.cons_subset_cons _ (List.subset_append_right more taken))
  refine .bind (takes_defaultWords n) (R := fun words _ s => Declares (words.getLast?.getD first) s)
    (fun words => ?_) ?_
  · refine .after (advances_sees .leftBrace) (fun opened => ?_) fun _ _ _ h => h
    split
    · exact takes_declared _ _ _
    · exact .after (advances_eat .semicolon) (fun found => .after (advances_modifiers words)
        (fun modifiers => takes_pure nofun) fun _ _ _ h => h) fun _ _ _ h => h
  · intro taken words more s hwords hs d hd
    rw [hs d hd]
    cases hlast : words.getLast? with
    | none => exact List.mem_cons_self
    | some w =>
      exact List.mem_cons_of_mem _ (List.mem_append_left _ (hwords w (List.mem_of_getLast? hlast)))

theorem takes_statement : Takes statement NamedIn := by
  have hlater : ∀ (more taken : List Token) (s : Statement), NamedIn taken s →
      NamedIn (more ++ taken) s :=
    fun more taken s h => h.mono (List.subset_append_right more taken)
  refine .after advances_remaining (fun n => ?_) hlater
  refine .after (advances_tags n) (fun tags => ?_) hlater
  refine .bind takes_word? (R := fun found taken s => ∃ first : Located TokenRange Name,
    found = some first ∧ NamedIn (.word first.val :: taken) s) (fun found => ?_) ?_
  · cases found with
    | none => exact takes_fail .declaration
    | some first =>
      refine .mono (Q := fun taken s => NamedIn (.word first.val :: taken) s) ?_
        fun taken s h => ⟨first, rfl, h⟩
      have hcons : ∀ (more taken : List Token) (s : Statement),
          NamedIn (.word first.val :: taken) s → NamedIn (.word first.val :: (more ++ taken)) s :=
        fun more taken s h => h.mono (List.cons_subset_cons _ (List.subset_append_right more taken))
      dsimp only
      split
      · exact takes_defaultStatement first
      · refine .after advances_remaining (fun n => ?_) hcons
        refine .bind (takes_headerWords n first) (R := fun words _ s => Declares words.2 s)
          (fun words => ?_) ?_
        · refine .after (advances_sees .leftBrace) (fun opened => ?_) fun _ _ _ h => h
          split
          · exact takes_declared _ _ _
          · exact takes_fail (.symbol .leftBrace)
        · intro taken words more s hwords hs d hd
          rw [hs d hd]
          rcases hwords with hwords | hwords
          · rw [hwords]
            exact List.mem_cons_self
          · exact List.mem_cons_of_mem _ (List.mem_append_left _ hwords)
  · rintro taken found more s hfound ⟨first, rfl, hs⟩
    refine hs.mono (List.cons_subset.mpr ⟨?_, List.subset_append_right taken more⟩)
    exact List.mem_append_left _ (hfound first rfl)

theorem takes_statements (n : Nat) :
    Takes (statements n) fun taken found => ∀ s ∈ found, NamedIn taken s := by
  induction n with
  | zero => exact takes_pure nofun
  | succ n ih =>
    refine .after advances_peek (fun next => ?_) fun more taken found h s hs =>
      (h s hs).mono (List.subset_append_right more taken)
    cases next with
    | none => exact takes_pure nofun
    | some t =>
      refine .bind takes_statement (R := fun first taken found => ∃ rest, found = first :: rest ∧
        ∀ s ∈ rest, NamedIn taken s) (fun first => ?_) ?_
      · refine .bind ih (R := fun rest _ found => found = first :: rest)
          (fun rest => takes_pure rfl) ?_
        rintro taken rest more found hrest rfl
        exact ⟨rest, rfl, fun s hs => (hrest s hs).mono (List.subset_append_left taken more)⟩
      · rintro taken first more found hfirst ⟨rest, rfl, hrest⟩ s hs
        rcases List.mem_cons.mp hs with rfl | hs
        · exact hfirst.mono (List.subset_append_left taken more)
        · exact (hrest s hs).mono (List.subset_append_right taken more)

theorem advances_exported : Advances exported :=
  .either (advances_eatToken _) (takes_fail .exportStatement) fun _ =>
    .seq advances_qualifiedName fun _ => .seq (advances_eat .semicolon) fun _ => takes_pure trivial

theorem takes_source :
    Takes source fun taken s => ∀ d ∈ s.declarations, .word d.name.val ∈ taken := by
  have hlater : ∀ (more taken : List Token) (s : Source TokenRange),
      (∀ d ∈ s.declarations, .word d.name.val ∈ taken) →
        ∀ d ∈ s.declarations, .word d.name.val ∈ more ++ taken :=
    fun more taken s h d hd => List.mem_append_right more (h d hd)
  refine .after advances_exported (fun entity => ?_) hlater
  refine .after advances_remaining (fun n => ?_) hlater
  refine .bind (takes_statements n) (R := fun found _ s =>
    s.declarations = found.filterMap Statement.declaration?) (fun found => takes_pure rfl) ?_
  intro taken found more s hfound hs d hd
  rw [hs] at hd
  obtain ⟨statement, hstatement, hd⟩ := List.mem_filterMap.mp hd
  exact List.mem_append_left _ (hfound statement hstatement d hd)

end Parser

/-- The names of declared types are words among the tokens. -/
theorem Source.word_mem_of_ofSignificant {tokens : List Token} {s : Source TokenRange}
    (h : ofSignificant tokens = .ok s) {d : Declaration TokenRange} (hd : d ∈ s.declarations) :
    .word d.name.val ∈ tokens := by
  rw [ofSignificant] at h
  split at h
  · rename_i hsource
    cases h
    obtain ⟨taken, hahead, htaken⟩ := Parser.takes_source.exists_append hsource
    rw [show tokens = _ from hahead]
    exact List.mem_append_left _ (htaken d hd)
  · cases h

/-! ### Words of a text -/

namespace Token

/-- The token can be scanned: a word is an identifier, and an integer fits in 63 bits. -/
def isScannable : Token → Bool
  | word name => isIdentifier name
  | integer value => decide (value < Nat.pow 2 63)
  | _ => true

/-- A token that was scanned can be. -/
def Scan.IsProper : Scan → Prop
  | .token t _ => t.isScannable = true
  | .fault _ _ _ => True

theorem isProper_of_scanComment {cs : List Char} {s : Scan} (h : scanComment cs = some s) :
    s.IsProper := by
  unfold scanComment at h
  split at h
  · cases h
    rfl
  · split at h <;> cases h
    · rfl
    · trivial
  · cases h

theorem isProper_of_scanQuoted {cs : List Char} {s : Scan} (h : scanQuoted cs = some s) :
    s.IsProper := by
  unfold scanQuoted at h
  split at h
  · dsimp only at h
    split at h <;> cases h
    · rfl
    · trivial
    · trivial
  · cases h

theorem isProper_of_scanNumber {cs : List Char} {s : Scan} (h : scanNumber cs = some s) :
    s.IsProper := by
  unfold scanNumber at h
  extract_lets whole rest fraction after value at h
  split at h
  · cases h
  · split at h
    · split at h <;> cases h
      · rename_i hvalue
        exact decide_eq_true hvalue
      · trivial
    · cases h
      rfl

theorem isProper_of_scanWord {cs : List Char} {s : Scan} (h : scanWord cs = some s) :
    s.IsProper := by
  simp only [scanWord] at h
  split at h
  · cases h
  · rename_i hword
    cases h
    split
    · rfl
    · rename_i hexport
      split
      · rfl
      · rename_i has
        have hall : (cs.takeWhile isWordChar).all isWordChar = true := List.all_takeWhile
        have hhead : (cs.takeWhile isWordChar).head?.any (!·.isDigit) = true := by
          cases cs with
          | nil => simp at hword
          | cons c rest =>
            cases hc : isWordChar c <;> simp_all
        simp [Scan.IsProper, isScannable, isIdentifier, hall, hhead, bne, hexport, has]

theorem isProper_of_scanSymbol {cs : List Char} {s : Scan} (h : scanSymbol cs = some s) :
    s.IsProper := by
  unfold scanSymbol at h
  split at h
  · cases h
    rfl
  · obtain ⟨symbol, _, rfl⟩ := Option.map_eq_some_iff.mp h
    rfl
  · cases h

theorem isProper_of_scanBlank {cs : List Char} {s : Scan} (h : scanBlank cs = some s) :
    s.IsProper := by
  unfold scanBlank at h
  split at h
  · cases h
    rfl
  · dsimp only at h
    split at h <;> cases h
    rfl

theorem isProper_scan (cs : List Char) : (scan cs).IsProper := by
  rw [scan]
  cases hfound : scanComment cs <|> scanQuoted cs <|> scanNumber cs <|> scanWord cs <|>
      scanSymbol cs <|> scanBlank cs with
  | none => trivial
  | some s =>
    simp only [Option.orElse_eq_orElse, Option.orElse_eq_or, Option.or_eq_some_iff] at hfound
    rcases hfound with h | ⟨_, h | ⟨_, h | ⟨_, h | ⟨_, h | ⟨_, h⟩⟩⟩⟩⟩
    · exact isProper_of_scanComment h
    · exact isProper_of_scanQuoted h
    · exact isProper_of_scanNumber h
    · exact isProper_of_scanWord h
    · exact isProper_of_scanSymbol h
    · exact isProper_of_scanBlank h

theorem isScannable_of_mem_pieces {offset skip : Nat} {cs : List Char}
    {p : Located Span (Except LexicalFault Token)} (hp : p ∈ pieces offset skip cs) {t : Token}
    (ht : p.val = .ok t) : t.isScannable = true := by
  induction cs generalizing offset skip with
  | nil => cases hp
  | cons c cs ih =>
    cases skip with
    | succ skip => exact ih hp
    | zero =>
      have hproper := isProper_scan (c :: cs)
      rw [pieces] at hp
      split at hp <;> rename_i hscan
      · rcases List.mem_cons.mp hp with rfl | hp
        · cases ht
          rw [hscan] at hproper
          exact hproper
        · exact ih hp
      · rcases List.mem_cons.mp hp with rfl | hp
        · cases ht
        · exact ih hp

theorem isScannable_of_tokenize {text : String} {tokens : List (Located Span Token)}
    (h : tokenize text = .ok tokens) {t : Located Span Token} (ht : t ∈ tokens) :
    t.val.isScannable = true := by
  simp only [tokenize] at h
  split at h
  · cases h
    obtain ⟨p, hp, ht⟩ := List.mem_filterMap.mp ht
    split at ht
    · rename_i hval
      cases ht
      exact isScannable_of_mem_pieces hp hval
    · cases ht
  · cases h

theorem isIdentifier_of_tokenize {text name : String} {tokens : List (Located Span Token)}
    (h : tokenize text = .ok tokens) {t : Located Span Token} (ht : t ∈ tokens)
    (hword : t.val = .word name) : isIdentifier name = true := by
  have hscannable := isScannable_of_tokenize h ht
  rwa [hword] at hscannable

end Token

/-- The names of declared types are identifiers. -/
theorem Source.isIdentifier_of_parse {text : String} {s : Source Span} (h : parse text = .ok s)
    {d : Declaration Span} (hd : d ∈ s.declarations) : Token.isIdentifier d.name.val = true := by
  obtain ⟨tokens, s', htokens, hs', rfl⟩ := exists_of_parse h
  obtain ⟨d', hd', rfl⟩ := List.mem_map.mp hd
  obtain ⟨t, ht, hword⟩ := List.mem_map.mp (word_mem_of_ofSignificant hs' hd')
  exact Token.isIdentifier_of_tokenize htokens (List.mem_of_mem_filter ht) hword

end Projection
