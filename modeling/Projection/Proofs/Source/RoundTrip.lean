import Projection.Proofs.Source.Fragments

/-!
# Reading undoes writing

A source that can be written down is read back from its text, apart from positions. The proof goes
up the grammar: items with their bodies, by induction on how they are nested, then declarations,
statements and the whole source. The text of a source is its lines of tokens, which the lexer gives
back (`Token.spells_layoutLines`).

The words `default`, `input`, `id`, `flat` and the like are names where a name stands: what follows
them decides, and no case of the proof asks that a name is another word.
-/

namespace Projection

open Token

namespace Parser

variable {P : Type} {rest : List Token}

/-! ### Items -/

/-- What follows an item. -/
def EndsItem (rest : List Token) : Prop :=
  rest.head? = some (.symbol .comma) ∨ rest.head? = some (.symbol .rightBrace)

theorem EndsItem.ne (h : EndsItem rest) {t : Token} (hcomma : t ≠ .symbol .comma)
    (hbrace : t ≠ .symbol .rightBrace) : rest.head? ≠ some t := by
  intro ht
  obtain hrest | hrest := h <;> rw [hrest] at ht <;> cases ht <;> contradiction

theorem EndsItem.endsAlias (h : EndsItem rest) : EndsAlias rest :=
  ⟨h.ne (by simp) (by simp), h.ne (by simp) (by simp), h.ne (by simp) (by simp)⟩

theorem EndsItem.endsType (h : EndsItem rest) : EndsType rest :=
  ⟨h.ne (by simp) (by simp), h.ne (by simp) (by simp), h.ne (by simp) (by simp)⟩

theorem head_marks (mark : Option (Located P Nullability)) (newName : Option (Located P Name))
    {s : Symbol} (hquestion : s ≠ .question) (hbang : s ≠ .bang)
    (hrest : rest.head? ≠ some (.symbol s)) :
    (Nullability.tokens mark ++ Name.aliasTokens newName ++ rest).head? ≠ some (.symbol s) := by
  cases mark with
  | some mark =>
    obtain ⟨mark, _⟩ := mark
    cases mark with
    | nullable => simpa [Nullability.tokens, Nullability.symbol] using hquestion.symm
    | nonNull => simpa [Nullability.tokens, Nullability.symbol] using hbang.symm
  | none =>
    cases newName with
    | some _ => simp [Nullability.tokens, Name.aliasTokens]
    | none => simpa [Nullability.tokens, Name.aliasTokens] using hrest

/-- After the name of a selection nothing starts but its own marks. -/
theorem head_markTokens (head : Selected P) {s : Symbol} (hstar : s ≠ .star)
    (hquestion : s ≠ .question) (hbang : s ≠ .bang) (hrest : rest.head? ≠ some (.symbol s)) :
    (head.markTokens ++ rest).head? ≠ some (.symbol s) := by
  cases hrecursive : head.recursive with
  | true => simpa [Selected.markTokens, hrecursive] using hstar.symm
  | false =>
    simpa [Selected.markTokens, hrecursive] using
      head_marks head.nullability head.newName hquestion hbang hrest

theorem reads_selected (head : Selected P) {name : Located TokenRange Name}
    (hname : name.val = head.name.val) (hstar : rest.head? ≠ some (.symbol .star))
    (hrest : EndsAlias rest) :
    Reads (selected name) (head.markTokens) rest (·.move nowhere = head.move nowhere) := by
  obtain ⟨name', recursive, nullability, newName⟩ := head
  refine Reads.bind (reads_eat_if recursive (head_marks _ _ (by simp) (by simp) hstar)) ?_
  intro star hstar
  refine Reads.last (reads_markedAlias nullability newName hrest) ?_
  rintro ⟨mark, read⟩ ⟨hmark, hread⟩
  refine reads_pure ?_
  simp only [Selected.move, move_nowhere_eq hname, hstar, hmark, hread]

/-- The parser reads the body with these items. -/
def ReadsBody (p : Parser (Body TokenRange)) (items : List (Item P)) : Prop :=
  ∀ rest, Reads p (braced (Item.rows items)) rest
    (Item.moveAll nowhere ·.items = Item.moveAll nowhere items)

section Item

variable {p : Parser (Body TokenRange)} {items : List (Item P)} {extent : P}

/-- An item that starts with a word is read by its word first. -/
theorem Reads.wordItem {name : Name} {taken : List Token} {Q : Item TokenRange → Prop}
    (h : ∀ w : Located TokenRange Name, w.val = name → Reads (wordItem p w) taken rest Q) :
    Reads (Parser.item p) (.word name :: taken) rest Q := by
  refine Reads.look reads_peek ?_
  rintro _ rfl
  refine Reads.take reads_word? ?_
  rintro _ ⟨r, rfl⟩
  exact h _ rfl

/-- A word before anything but a colon or a parenthesis starts a plain selection. -/
theorem Reads.selection {w : Located TokenRange Name} {taken : List Token}
    {Q : Item TokenRange → Prop} (hparen : (taken ++ rest).head? ≠ some (.symbol .leftParen))
    (hcolon : (taken ++ rest).head? ≠ some (.symbol .colon))
    (h : Reads (do
      let head ← selected w
      if ← sees .leftBrace then
        let body ← p
        return .nested head body.items body.extent
      else return .plain head) taken rest Q) :
    Reads (Parser.wordItem p w) taken rest Q := by
  refine Reads.look reads_sees ?_
  rintro _ rfl
  refine Reads.look reads_sees ?_
  rintro _ rfl
  -- Neither `flat` nor `id` is a macro here, whatever the word is.
  have hparen' : ((taken ++ rest).head? == some (.symbol .leftParen)) = false := by
    simpa using hparen
  rw [if_neg (by simpa using hcolon), hparen', Bool.false_and, if_neg (by simp), Bool.false_and,
    if_neg (by simp)]
  exact h

theorem reads_plain (head : Selected P) (hrest : EndsItem rest) :
    Reads (Parser.item p) head.tokens rest (·.move nowhere = Item.move nowhere (.plain head)) := by
  refine Reads.wordItem ?_
  intro w hw
  refine Reads.selection ?_ ?_ ?_
  · exact head_markTokens head (by simp) (by simp) (by simp) (hrest.ne (by simp) (by simp))
  · exact head_markTokens head (by simp) (by simp) (by simp) (hrest.ne (by simp) (by simp))
  · have hstar := hrest.ne (t := .symbol .star) (by simp) (by simp)
    refine Reads.last (reads_selected head hw hstar hrest.endsAlias) ?_
    intro read hread
    refine Reads.look reads_sees ?_
    rintro _ rfl
    rw [if_neg (by simpa using hrest.ne (by simp) (by simp))]
    exact reads_pure (congrArg Item.plain hread)

theorem reads_nested (head : Selected P) (hbody : ReadsBody p items) :
    Reads (Parser.item p) (head.tokens ++ braced (Item.rows items)) rest
      (·.move nowhere = Item.move nowhere (.nested head items extent)) := by
  refine Reads.wordItem ?_
  intro w hw
  rw [List.append_eq]
  refine Reads.selection ?_ ?_ ?_
  · rw [List.append_assoc]
    exact head_markTokens head (by simp) (by simp) (by simp) (by simp [braced])
  · rw [List.append_assoc]
    exact head_markTokens head (by simp) (by simp) (by simp) (by simp [braced])
  · have hends : EndsAlias (braced (Item.rows items) ++ rest) :=
      ⟨by simp [braced], by simp [braced], by simp [braced]⟩
    refine Reads.bind (reads_selected head hw (by simp [braced]) hends) ?_
    intro read hread
    refine Reads.look reads_sees ?_
    rintro _ rfl
    rw [if_pos (by simp [braced])]
    refine Reads.last (hbody rest) ?_
    intro body hitems
    refine reads_pure ?_
    simp only [Item.move, hread, hitems, nowhere]

theorem reads_bundle (name : Located P Name) (nullability : Option (Located P Nullability))
    (hrest : EndsItem rest) :
    Reads (Parser.item p) (Item.tokens (.bundle name nullability)) rest
      (·.move nowhere = Item.move nowhere (.bundle name nullability)) := by
  refine Reads.look reads_peek ?_
  rintro _ rfl
  refine Reads.take reads_advance ?_
  intro hash _
  refine Reads.take reads_word ?_
  intro w hw
  have hquestion := hrest.ne (t := .symbol .question) (by simp) (by simp)
  have hbang := hrest.ne (t := .symbol .bang) (by simp) (by simp)
  refine Reads.last (reads_nullability nullability hquestion hbang) ?_
  intro mark hmark
  have hname : Located.move nowhere (⟨w.val, hash.upTo w.pos⟩ : Located TokenRange Name) =
      name.move nowhere := move_nowhere_eq hw
  refine reads_pure ?_
  rw [Item.move, Item.move, hmark, hname]

/-- A word before a parenthesis is taken with the word between this parenthesis and the next. -/
theorem Reads.parenthesized {β : Type} {name : Name} {taken : List Token}
    {k : Located TokenRange Name → Parser β} {Q : β → Prop}
    (h : ∀ w : Located TokenRange Name, w.val = name → Reads (k w) taken rest Q) :
    Reads (parenthesized >>= k)
      (.symbol .leftParen :: .word name :: .symbol .rightParen :: taken) rest Q :=
  Reads.bind reads_parenthesized h

theorem reads_flatten (property : Located P Name) (lead : Option (Located P Name))
    (hbody : ReadsBody p items) :
    Reads (Parser.item p) (Item.tokens (.flatten property lead items extent)) rest
      (·.move nowhere = Item.move nowhere (.flatten property lead items extent)) := by
  rw [Item.tokens]
  refine Reads.wordItem ?_
  rintro w hw
  refine Reads.look reads_sees ?_
  rintro _ rfl
  refine Reads.look reads_sees ?_
  rintro _ rfl
  rw [if_neg (by simp), if_pos (by simp [hw])]
  refine Reads.parenthesized ?_
  intro read hread
  refine Reads.bind (reads_newName lead (by simp [braced])) ?_
  intro newName hnewName
  refine Reads.last (hbody rest) ?_
  intro body hitems
  refine reads_pure ?_
  simp only [Item.move, move_nowhere_eq hread, hnewName, hitems, nowhere]

theorem reads_idOnly (property : Located P Name) (nullability : Option (Located P Nullability))
    (newName : Option (Located P Name)) (hrest : EndsItem rest) :
    Reads (Parser.item p) (Item.tokens (.idOnly property nullability newName)) rest
      (·.move nowhere = Item.move nowhere (.idOnly property nullability newName)) := by
  rw [Item.tokens]
  refine Reads.wordItem ?_
  rintro w hw
  refine Reads.look reads_sees ?_
  rintro _ rfl
  refine Reads.look reads_sees ?_
  rintro _ rfl
  rw [if_neg (by simp), if_neg (by simp [hw]), if_pos (by simp [hw])]
  refine Reads.parenthesized ?_
  intro read hread
  refine Reads.last (reads_markedAlias nullability newName hrest.endsAlias) ?_
  rintro ⟨mark, read'⟩ ⟨hmark, hread'⟩
  refine reads_pure ?_
  simp only [Item.move, move_nowhere_eq hread, hmark, hread']

theorem reads_negative (name : Located P Name) :
    Reads (Parser.item p) (Item.tokens (.negative name)) rest
      (·.move nowhere = Item.move nowhere (.negative name)) := by
  refine Reads.look reads_peek ?_
  rintro _ rfl
  refine Reads.take reads_advance ?_
  intro _ _
  refine Reads.last reads_word ?_
  intro w hw
  exact reads_pure (congrArg Item.negative (move_nowhere_eq hw))

theorem reads_user (item : UserItem P) (h : item.isWritable = true) (hrest : EndsItem rest) :
    Reads (Parser.item p) item.tokens rest (·.move nowhere = Item.move nowhere (.user item)) := by
  have hequals := hrest.ne (t := .symbol .equals) (by simp) (by simp)
  simp only [UserItem.isWritable, Bool.and_eq_true] at h
  obtain ⟨⟨⟨htags, _⟩, _⟩, _⟩ := h
  unfold UserItem.tokens
  cases hitem : item.tags with
  | nil =>
    rw [List.flatMap_nil, List.nil_append]
    refine Reads.wordItem ?_
    intro w hw
    refine Reads.look reads_sees ?_
    rintro _ rfl
    refine Reads.look reads_sees ?_
    rintro _ rfl
    rw [if_pos (by simp [UserItem.typeTokens])]
    exact reads_userItem item (by rw [hitem]; rfl) hw hrest.endsType hequals
  | cons first tags =>
    rw [← hitem]
    refine Reads.look reads_peek ?_
    intro next hnext
    have hat : next = some (.symbol .atSign) := by
      simp [hnext, hitem, TagItem.tokens]
    subst hat
    refine Reads.look reads_remaining ?_
    rintro _ rfl
    refine Reads.bind (reads_tags item.tags htags ?_ ⟨⟨by simp, by simp⟩, by simp⟩) ?_
    · have hlength := TagItem.length_le_flatMap item.tags
      rw [List.append_assoc, List.length_append]
      omega
    · intro read hread
      refine Reads.take reads_word ?_
      intro w hw
      exact reads_userItem item hread hw hrest.endsType hequals

theorem reads_group (pattern : Located P AliasPattern) (h : pattern.val.isWritable = true)
    (hbody : ReadsBody p items) :
    Reads (Parser.item p) (Item.tokens (.group pattern items extent)) rest
      (·.move nowhere = Item.move nowhere (.group pattern items extent)) := by
  rw [Item.tokens]
  refine Reads.look reads_peek ?_
  rintro _ rfl
  refine Reads.take reads_advance ?_
  intro keyword _
  refine Reads.bind (reads_pattern pattern.val h) ?_
  intro read hread
  refine Reads.last (hbody rest) ?_
  intro body hitems
  refine reads_pure ?_
  simp only [Item.move, move_nowhere_eq hread, hitems, nowhere]

end Item

/-- A body is read if its items are, up to the closing brace. -/
theorem readsBody {items : List (Item P)} {n : Nat} (hn : (braced (Item.rows items)).length ≤ n)
    (h : ∀ m rest, (separated (Item.rows items)).length < m →
      Reads (itemsRest (Parser.item (body m)) m)
        (separated (Item.rows items) ++ [Token.symbol .rightBrace]) rest
        (Item.moveAll nowhere ·.1 = Item.moveAll nowhere items)) :
    ReadsBody (body n) items := by
  intro rest
  cases n with
  | zero => simp [braced] at hn
  | succ n =>
    simp only [braced, List.length_cons, List.length_append, List.length_nil] at hn
    refine Reads.take reads_expect ?_
    intro opening _
    refine Reads.last (h n rest (by omega)) ?_
    rintro ⟨read, close⟩ hread
    exact reads_pure hread

-- As for values: one token at least for each round of a loop and each level of bodies.
mutual

theorem reads_item : ∀ (item : Item P) {n : Nat} {rest : List Token}, item.isWritable = true →
    item.tokens.length ≤ n → EndsItem rest →
    Reads (Parser.item (body n)) item.tokens rest (·.move nowhere = item.move nowhere)
  | .plain head, _, _, _, _, hrest => reads_plain head hrest
  | .nested head items _, n, rest, h, hn, _ => by
    rw [Item.isWritable, Bool.and_eq_true] at h
    rw [Item.tokens, List.length_append] at hn
    exact reads_nested head (readsBody (by omega) fun m rest hm =>
      reads_itemsRest items h.2 (Nat.le_of_lt hm) hm)
  | .bundle name nullability, _, _, _, _, hrest => reads_bundle name nullability hrest
  | .flatten property lead items _, n, rest, h, hn, _ => by
    rw [Item.isWritable, Bool.and_eq_true] at h
    simp only [Item.tokens, List.length_append, List.length_cons] at hn
    exact reads_flatten property lead (readsBody (by omega) fun m rest hm =>
      reads_itemsRest items h.2 (Nat.le_of_lt hm) hm)
  | .idOnly property nullability newName, _, _, _, _, hrest =>
    reads_idOnly property nullability newName hrest
  | .negative name, _, _, _, _, _ => reads_negative name
  | .user item, _, _, h, _, hrest => reads_user item h hrest
  | .group pattern items _, n, rest, h, hn, _ => by
    rw [Item.isWritable, Bool.and_eq_true] at h
    rw [Item.tokens, List.length_append] at hn
    exact reads_group pattern h.1 (readsBody (by omega) fun m rest hm =>
      reads_itemsRest items h.2 (Nat.le_of_lt hm) hm)
termination_by structural item => item

theorem reads_itemsRest : ∀ (items : List (Item P)) {m n : Nat} {rest : List Token},
    Item.allWritable items = true → (separated (Item.rows items)).length ≤ m →
    (separated (Item.rows items)).length < n →
    Reads (itemsRest (Parser.item (body m)) n)
      (separated (Item.rows items) ++ [Token.symbol .rightBrace]) rest
      (Item.moveAll nowhere ·.1 = Item.moveAll nowhere items)
  | items, m, 0, rest, _, _, hn => by omega
  | [], m, n + 1, rest, _, _, hn => by
    refine Reads.last reads_eat ?_
    rintro _ ⟨close, rfl⟩
    exact reads_pure rfl
  | [item], m, n + 1, rest, h, hm, hn => by
    rw [Item.allWritable, Bool.and_eq_true] at h
    rw [Item.rows, Item.rows, separated_singleton] at hm hn ⊢
    obtain ⟨t, ts, htokens, ht⟩ := Item.tokens_head item
    refine Reads.look (reads_eat_none (by simpa [htokens] using ht)) ?_
    rintro _ rfl
    refine Reads.bind (reads_item item h.1 hm (.inr rfl)) ?_
    intro first hfirst
    -- No comma follows the last item, and the next round finds the brace.
    refine Reads.look (reads_eat_none (by simp)) ?_
    intro _ _
    have hlength : item.tokens.length ≠ 0 := by simp [htokens]
    refine Reads.last (reads_itemsRest [] rfl (Nat.zero_le m) ?_) ?_
    · simp only [Item.rows, separated, List.intercalate_nil, List.length_nil]
      omega
    rintro ⟨more, close⟩ hmore
    exact reads_pure (congrArg₂ List.cons hfirst hmore)
  | item :: next :: items, m, n + 1, rest, h, hm, hn => by
    rw [Item.allWritable, Bool.and_eq_true] at h
    have hrows : separated (Item.rows (item :: next :: items)) =
        item.tokens ++ Token.symbol .comma :: separated (Item.rows (next :: items)) := by
      rw [Item.rows, Item.rows, separated_cons_cons]
    rw [hrows] at hm hn ⊢
    rw [List.length_append, List.length_cons] at hm hn
    obtain ⟨t, ts, htokens, ht⟩ := Item.tokens_head item
    rw [List.append_assoc, List.cons_append]
    refine Reads.look (reads_eat_none (by simpa [htokens] using ht)) ?_
    rintro _ rfl
    refine Reads.bind (reads_item item h.1 (by omega) (.inl rfl)) ?_
    intro first hfirst
    refine Reads.take reads_eat ?_
    intro _ _
    refine Reads.last (reads_itemsRest (next :: items) h.2 (by omega) (by omega)) ?_
    rintro ⟨more, close⟩ hmore
    exact reads_pure (congrArg₂ List.cons hfirst hmore)
termination_by structural items => items

end

/-! ### Declarations -/

theorem reads_modifiers (ms : List (Located P Modifier)) {ws : List (Located TokenRange Name)}
    (hws : ws.map (·.val) = ms.map (·.val.text)) :
    Reads (modifiers ws) [] rest (·.map (·.move nowhere) = ms.map (·.move nowhere)) := by
  induction ms generalizing ws with
  | nil =>
    obtain rfl : ws = [] := by simpa using hws
    exact reads_pure rfl
  | cons m ms ih =>
    cases ws with
    | nil => simp at hws
    | cons w ws =>
      rw [List.map_cons, List.map_cons, List.cons.injEq] at hws
      have hm : Modifier.ofWord? w.val = some m.val := by rw [hws.1, Modifier.ofWord?_text]
      unfold modifiers
      rw [hm]
      refine Reads.last (ih hws.2) ?_
      intro more hmore
      refine reads_pure ?_
      rw [List.map_cons, hmore]
      rfl

theorem reads_headerWords (words : List Name) (first : Located TokenRange Name) {n : Nat}
    (hn : words.length ≤ n) (hrest : ∀ name, rest.head? ≠ some (.word name)) :
    Reads (headerWords n first) (words.map Token.word) rest
      fun r => (r.1 ++ [r.2]).map (·.val) = first.val :: words := by
  induction words generalizing first n with
  | nil =>
    cases n with
    | zero => exact reads_pure rfl
    | succ n =>
      refine Reads.last (reads_word?_none hrest) ?_
      rintro _ rfl
      exact reads_pure rfl
  | cons word words ih =>
    cases n with
    | zero => simp at hn
    | succ n =>
      refine Reads.take reads_word? ?_
      rintro _ ⟨r, rfl⟩
      refine Reads.last (ih _ (by simpa using hn)) ?_
      rintro ⟨more, last⟩ hmore
      refine reads_pure ?_
      rw [List.cons_append, List.map_cons, hmore]

/-- The body of a declaration is read after its header. -/
theorem reads_declaration (d : Declaration P) (h : d.isWritable = true)
    {tags : List (TagItem TokenRange)} {words : List (Located TokenRange Name)}
    {name : Located TokenRange Name}
    (htags : tags.map (·.move nowhere) = d.tags.map (·.move nowhere))
    (hwords : words.map (·.val) = d.modifiers.map (·.val.text)) (hname : name.val = d.name.val)
    (hrest : rest.head? ≠ some (.symbol .semicolon)) :
    Reads (declaration tags words name) (braced (Item.rows d.body.items)) rest
      (·.move nowhere = d.move nowhere) := by
  rw [Declaration.isWritable, Bool.and_eq_true] at h
  have hbody {n : Nat} (hn : (braced (Item.rows d.body.items)).length ≤ n) :
      ReadsBody (body n) d.body.items :=
    readsBody hn fun m rest hm => reads_itemsRest d.body.items h.2 (Nat.le_of_lt hm) hm
  refine Reads.within (Reads.look (reads_modifiers d.modifiers hwords) ?_)
  intro modifiers hmodifiers
  refine Reads.look reads_remaining ?_
  rintro _ rfl
  refine Reads.last (hbody (by simp) rest) ?_
  intro body hitems
  refine Reads.last (reads_eat_none hrest) ?_
  intro _ _
  refine reads_pure ?_
  simp only [Declaration.move, Body.move, move_nowhere_eq hname, htags, hmodifiers, hitems, nowhere]

/-! ### Statements -/

/-- A body after `default` ends the words of the statement at once. -/
theorem reads_defaultWords_none {n : Nat} (hcomma : rest.head? ≠ some (.symbol .comma))
    (hword : ∀ name, rest.head? ≠ some (.word name)) :
    Reads (defaultWords n) [] rest (· = []) := by
  cases n with
  | zero => exact reads_pure rfl
  | succ n =>
    refine Reads.look (reads_eat_none hcomma) ?_
    intro _ _
    refine Reads.look reads_peek ?_
    rintro _ rfl
    rw [List.nil_append]
    split
    · rename_i name hname
      exact absurd hname (hword name)
    · exact reads_pure rfl

theorem reads_defaultWords_cons (m : Modifier) (ms : List Modifier) {n : Nat} {lead : List Token}
    (hlead : ∀ rest, Reads (eat .comma) lead (.word m.text :: rest) fun _ => True)
    (hmore : Reads (defaultWords n) (ms.flatMap fun m => [.symbol .comma, .word m.text]) rest
      (·.map (·.val) = ms.map Modifier.text)) :
    Reads (defaultWords (n + 1))
      (lead ++ Token.word m.text :: ms.flatMap fun m => [Token.symbol .comma, .word m.text]) rest
      (·.map (·.val) = (m :: ms).map Modifier.text) := by
  refine Reads.bind (hlead _) ?_
  intro _ _
  refine Reads.look reads_peek ?_
  rintro _ rfl
  simp only [List.cons_append, List.head?_cons, Modifier.ofWord?_text, Option.isSome_some, if_true]
  refine Reads.take reads_word ?_
  intro w hw
  refine Reads.last hmore ?_
  intro more hmore
  refine reads_pure ?_
  rw [List.map_cons, hw, hmore, List.map_cons]

theorem reads_defaultWords (ms : List Modifier) {n : Nat} (hn : ms.length ≤ n)
    (hcomma : rest.head? ≠ some (.symbol .comma))
    (hword : ∀ name, rest.head? ≠ some (.word name)) :
    Reads (defaultWords n) (ms.flatMap fun m => [.symbol .comma, .word m.text]) rest
      (·.map (·.val) = ms.map Modifier.text) := by
  induction ms generalizing n with
  | nil =>
    refine (reads_defaultWords_none hcomma hword).mono ?_
    rintro _ rfl
    rfl
  | cons m ms ih =>
    cases n with
    | zero => simp at hn
    | succ n =>
      have hlead (rest : List Token) :
          Reads (eat .comma) [.symbol .comma] (.word m.text :: rest) fun _ => True :=
        reads_eat.mono fun _ _ => trivial
      exact reads_defaultWords_cons m ms hlead (ih (by simpa using hn))

/-- No comma stands before the first modifier. -/
theorem reads_defaultList (m : Modifier) (ms : List Modifier) {n : Nat} (hn : ms.length < n)
    (hcomma : rest.head? ≠ some (.symbol .comma))
    (hword : ∀ name, rest.head? ≠ some (.word name)) :
    Reads (defaultWords n) (.word m.text :: ms.flatMap fun m => [.symbol .comma, .word m.text]) rest
      (·.map (·.val) = (m :: ms).map Modifier.text) := by
  cases n with
  | zero => omega
  | succ n =>
    have hlead (rest : List Token) :
        Reads (eat .comma) [] (.word m.text :: rest) fun _ => True :=
      (reads_eat_none (by simp)).mono fun _ _ => trivial
    exact reads_defaultWords_cons m ms hlead (reads_defaultWords ms (by omega) hcomma hword)

/-- The modifiers that all types share are read from one statement. -/
theorem reads_defaults (m : Located P Modifier) (ms : List (Located P Modifier)) :
    Reads statement (Source.defaultTokens (m :: ms)) rest fun s =>
      s.modifiers.map (·.move nowhere) = (m :: ms).map (·.move nowhere) ∧
        s.declaration? = none := by
  have hwords : separated ((m :: ms).map fun m => [Token.word m.val.text]) =
      .word m.val.text ::
        (ms.map (·.val)).flatMap fun m => [.symbol .comma, .word m.text] := by
    rw [separated, List.map_cons, intercalate_cons, List.flatMap_map, List.flatMap_map]
    rfl
  rw [Source.defaultTokens, hwords]
  refine Reads.look reads_remaining ?_
  rintro _ rfl
  refine Reads.look (reads_tags_none (by simp)) ?_
  rintro _ rfl
  refine Reads.take reads_word? ?_
  rintro _ ⟨r, rfl⟩
  dsimp only
  rw [if_pos (by simp)]
  refine Reads.look reads_remaining ?_
  rintro _ rfl
  refine Reads.bind (reads_defaultList m.val (ms.map (·.val)) ?_ (by simp) (by simp)) ?_
  · simp only [List.length_append, List.length_flatMap, List.length_cons, List.length_nil,
      List.map_const', List.sum_replicate_nat]
    omega
  intro words hread
  refine Reads.look reads_sees ?_
  rintro _ rfl
  rw [if_neg (by simp)]
  refine Reads.take reads_eat ?_
  intro _ _
  have hmodifiers : words.map (·.val) = (m :: ms).map (·.val.text) := by
    rw [hread, List.map_cons, List.map_cons, List.map_map]
    rfl
  refine Reads.last (reads_modifiers (m :: ms) hmodifiers) ?_
  intro modifiers hmodifiers
  exact reads_pure ⟨hmodifiers, rfl⟩

theorem reads_statement (d : Declaration P) (h : d.isWritable = true)
    (hrest : rest.head? ≠ some (.symbol .semicolon)) :
    Reads statement d.tokens rest fun s => s.modifiers = [] ∧
      s.declaration?.map (·.move nowhere) = some (d.move nowhere) := by
  obtain ⟨first, more, hwords, htokens⟩ := Declaration.tokens_eq d
  have htagsWritable : d.tags.all TagItem.isWritable = true := by
    simp only [Declaration.isWritable, Bool.and_eq_true] at h
    exact h.1.1
  rw [htokens]
  refine Reads.look reads_remaining ?_
  rintro _ rfl
  refine Reads.bind (reads_tags d.tags htagsWritable ?_ ⟨⟨by simp, by simp⟩, by simp⟩) ?_
  · have hlength := TagItem.length_le_flatMap d.tags
    rw [List.append_assoc, List.length_append]
    omega
  intro tags htags
  refine Reads.take reads_word? ?_
  rintro _ ⟨r, rfl⟩
  dsimp only
  split
  · -- The word `default` is a name here, since no modifier is called so.
    rename_i hdefault
    rw [Bool.and_eq_true, beq_iff_eq] at hdefault
    obtain ⟨hnone, rfl⟩ := hdefault
    have hmodifiers : d.modifiers = [] := by
      cases hmodifiers : d.modifiers with
      | nil => rfl
      | cons m ms =>
        rw [hmodifiers] at hwords
        exact absurd (List.cons.inj hwords).1 (Modifier.text_ne_default m.val)
    rw [hmodifiers] at hwords
    obtain ⟨hname, rfl⟩ := List.cons.inj hwords
    obtain rfl : tags = [] := by simpa using hnone
    refine Reads.look reads_remaining ?_
    rintro _ rfl
    refine Reads.look (reads_defaultWords_none (by simp [braced]) (by simp [braced])) ?_
    rintro _ rfl
    refine Reads.look reads_sees ?_
    rintro _ rfl
    rw [if_pos (by simp [braced])]
    refine Reads.last (reads_declaration d h htags (by rw [hmodifiers]; rfl) hname.symm hrest) ?_
    intro read hread
    exact reads_pure ⟨rfl, congrArg some hread⟩
  · refine Reads.look reads_remaining ?_
    rintro _ rfl
    refine Reads.bind (reads_headerWords more _ ?_ (by simp [braced])) ?_
    · simp
    rintro ⟨words, name⟩ hread
    rw [← hwords, List.map_append, List.map_singleton] at hread
    obtain ⟨hmodifiers, hname⟩ := List.append_inj' hread rfl
    refine Reads.look reads_sees ?_
    rintro _ rfl
    rw [if_pos (by simp [braced])]
    have hname : name.val = d.name.val := by simpa using hname
    refine Reads.last (reads_declaration d h htags hmodifiers hname hrest) ?_
    intro read hread
    exact reads_pure ⟨rfl, congrArg some hread⟩

theorem reads_statements (ds : List (Declaration P)) {n : Nat}
    (h : ds.all Declaration.isWritable = true) (hn : ds.length ≤ n) :
    Reads (statements n) (ds.flatMap Declaration.tokens) [] fun ss =>
      ss.flatMap Statement.modifiers = [] ∧
        (ss.filterMap Statement.declaration?).map (·.move nowhere) = ds.map (·.move nowhere) := by
  induction ds generalizing n with
  | nil =>
    cases n with
    | zero => exact reads_pure ⟨rfl, rfl⟩
    | succ n =>
      refine Reads.look reads_peek ?_
      rintro _ rfl
      exact reads_pure ⟨rfl, rfl⟩
  | cons d ds ih =>
    cases n with
    | zero => simp at hn
    | succ n =>
      rw [List.all_cons, Bool.and_eq_true] at h
      rw [List.flatMap_cons]
      obtain ⟨t, ts, htokens, ht⟩ := Declaration.tokens_head d
      have hnext : (ds.flatMap Declaration.tokens ++ []).head? ≠ some (.symbol .semicolon) := by
        cases ds with
        | nil => simp
        | cons next ds =>
          obtain ⟨t, ts, htokens, ht⟩ := Declaration.tokens_head next
          simpa [htokens] using ht
      refine Reads.look reads_peek ?_
      intro next hpeek
      obtain rfl : next = some t := by simp [hpeek, htokens]
      refine Reads.bind (reads_statement d h.1 hnext) ?_
      rintro first ⟨hfirst, hdeclared⟩
      refine Reads.last (ih h.2 (by simpa using hn)) ?_
      rintro more ⟨hmodifiers, hdeclarations⟩
      obtain ⟨read, hread, hmove⟩ := Option.map_eq_some_iff.mp hdeclared
      refine reads_pure ⟨?_, ?_⟩
      · rw [List.flatMap_cons, hfirst, hmodifiers, List.append_nil]
      · rw [List.filterMap_cons_some hread, List.map_cons, hmove, hdeclarations, List.map_cons]

/-- All statements of a source are read. -/
theorem reads_sourceStatements (s : Source P) (h : s.isWritable = true) {n : Nat}
    (hn : s.lines.tail.length ≤ n) :
    Reads (statements n) s.lines.tail.flatten [] fun ss =>
      (ss.flatMap Statement.modifiers).map (·.move nowhere) = s.modifiers.map (·.move nowhere) ∧
        (ss.filterMap Statement.declaration?).map (·.move nowhere) =
          s.declarations.map (·.move nowhere) := by
  rw [Source.isWritable, Bool.and_eq_true] at h
  cases hmodifiers : s.modifiers with
  | nil =>
    have htail : s.lines.tail = s.declarations.map Declaration.tokens := by
      simp [Source.lines, hmodifiers]
    rw [htail, ← List.flatMap_def]
    rw [htail, List.length_map] at hn
    refine (reads_statements s.declarations h.2 hn).mono ?_
    rintro ss ⟨hshared, hdeclarations⟩
    exact ⟨by rw [hshared]; rfl, hdeclarations⟩
  | cons m ms =>
    have htail : s.lines.tail = Source.defaultTokens (m :: ms) ::
        s.declarations.map Declaration.tokens := by
      simp [Source.lines, hmodifiers]
    rw [htail, List.flatten_cons, ← List.flatMap_def]
    rw [htail, List.length_cons, List.length_map] at hn
    cases n with
    | zero => omega
    | succ n =>
      refine Reads.look reads_peek ?_
      rintro _ rfl
      refine Reads.bind (reads_defaults m ms) ?_
      rintro first ⟨hfirst, hnone⟩
      refine Reads.last (reads_statements s.declarations h.2 (by omega)) ?_
      rintro more ⟨hmore, hdeclarations⟩
      refine reads_pure ⟨?_, ?_⟩
      · rw [List.flatMap_cons, hmore, List.append_nil, hfirst]
      · rw [List.filterMap_cons_none hnone, hdeclarations]

theorem reads_exported (entity : Name) :
    Reads exported (Source.exportTokens entity) rest (·.val = entity) := by
  refine Reads.take reads_eatToken ?_
  rintro _ ⟨opening, rfl⟩
  refine Reads.bind (reads_qualifiedName entity (by simp)) ?_
  intro read hread
  refine Reads.last reads_eat ?_
  intro _ _
  exact reads_pure hread

theorem reads_source (s : Source P) (h : s.isWritable = true) :
    Reads source s.lines.flatten [] (·.bare = s.bare) := by
  have hlines : s.lines.flatten =
      Source.exportTokens s.entity.val ++ s.lines.tail.flatten := rfl
  rw [hlines]
  refine Reads.bind (reads_exported s.entity.val) ?_
  intro entity hentity
  refine Reads.look reads_remaining ?_
  rintro _ rfl
  have hrows : ∀ row ∈ s.lines.tail, row ≠ [] := by
    intro row hrow
    rw [Source.lines, List.tail_cons, List.mem_append] at hrow
    obtain hdefaults | hdeclaration := hrow
    · split at hdefaults
      · cases hdefaults
      · rw [List.mem_singleton] at hdefaults
        rw [hdefaults]
        exact List.cons_ne_nil _ _
    · obtain ⟨d, _, rfl⟩ := List.mem_map.mp hdeclaration
      obtain ⟨t, ts, htokens, _⟩ := Declaration.tokens_head d
      rw [htokens]
      exact List.cons_ne_nil _ _
  refine Reads.last (reads_sourceStatements s h ?_) ?_
  · rw [List.append_nil]
    exact length_le_flatten hrows
  rintro statements ⟨hmodifiers, hdeclarations⟩
  refine reads_pure ?_
  simp only [Source.bare, Source.move, move_nowhere_eq hentity, hmodifiers, hdeclarations]

end Parser

namespace Source

variable {P : Type}

/-- **Reading undoes writing.** A source that can be written down is read from its text, with all
its parts. -/
theorem parse_render (s : Source P) (h : s.isWritable = true) :
    ∃ read, parse s.render = .ok read ∧ read.bare = s.bare := by
  have hspells : Spells s.render.toList s.lines.flatten := by
    rw [render, String.toList_ofList]
    exact spells_layoutLines s.lines fun line hline => List.all_eq_true.mp (all_lines h line hline)
  obtain ⟨place, hparse⟩ := parse_of_significant (tokenize_of_spells hspells)
  obtain ⟨read, hread, hbare⟩ := Parser.reads_source s h 0
  rw [List.append_nil] at hread
  refine ⟨read.move place, ?_, ?_⟩
  · rw [hparse, ofSignificant, hread]
  · rw [bare_move, hbare]

/-- A source whose names are words that have a meaning elsewhere. -/
def oddNames : Source Unit where
  entity := ⟨"hr.Staff", ()⟩
  modifiers := [⟨.stance .fixed, ()⟩, ⟨.deleted, ()⟩]
  declarations :=
    [⟨⟨"default", ()⟩, [], [],
      ⟨[.plain ⟨⟨"id", ()⟩, false, none, none⟩,
        .idOnly ⟨"flat", ()⟩ (some ⟨.nullable, ()⟩) (some ⟨"input", ()⟩),
        .flatten ⟨"input", ()⟩ none [.negative ⟨"fixed", ()⟩] (),
        .group ⟨⟨true, false, "default", ""⟩, ()⟩ [.bundle ⟨"allScalars", ()⟩ none] (),
        .user ⟨[], ⟨"null", ()⟩, ⟨⟨"List", [⟨"String", [], true⟩], false⟩, ()⟩,
          some ⟨.literal (.integer (-3)), ()⟩⟩], ()⟩⟩,
    ⟨⟨"input", ()⟩, [⟨⟨"a.B", ()⟩, [(⟨"value", ()⟩,
      ⟨.list [.literal (.quoted "\"\n"), .constant "x.Y"], ()⟩)]⟩], [⟨.input, ()⟩], ⟨[], ()⟩⟩]

theorem parse_render_oddNames :
    oddNames.isWritable = true ∧
      oddNames.render = "export hr.Staff;\ndefault fixed, deleted;\n" ++
        "default \x7b id, id(flat)? as input, flat(input) \x7b -fixed \x7d, " ++
        "as(^default ->) \x7b #allScalars \x7d, null: List<String?> = -3 \x7d\n" ++
        "@a.B(value = [\"\\\"\\n\", x.Y]) input input \x7b \x7d\n" ∧
      ∃ read, parse oddNames.render = .ok read ∧ read.bare = oddNames.bare :=
  ⟨by decide +kernel, by decide +kernel, parse_render oddNames (by decide +kernel)⟩

end Source

end Projection
