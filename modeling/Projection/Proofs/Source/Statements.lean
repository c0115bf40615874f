import Projection.Proofs.Source.Locality

/-!
# Statements read alike everywhere

A statement may end with a semicolon. `openStatement` reads it without that semicolon
(`endsWithSemicolon_statement`), and does the same wherever the tokens of the statement are ahead
(`readable_of_openStatement`). What follows a declaration does not matter, as it ends with a brace.
A `default` statement has no such end: its words go on as long as modifiers follow.
-/

namespace Projection

namespace Parser

variable {α β : Type} {n m : Nat}

/-! ### Statements without their semicolon -/

/-- The cursor after a semicolon that may be the next token. -/
def skipSemicolon (c : Cursor) : Cursor :=
  if c.ahead.head? = some (.symbol .semicolon) then ⟨c.ahead.tail, c.index + 1⟩ else c

theorem eat_semicolon (c : Cursor) : ∃ found, eat .semicolon c = .ok (found, skipSemicolon c) := by
  rw [eat, eatToken_eq, skipSemicolon]
  split
  · exact ⟨_, rfl⟩
  · exact ⟨_, rfl⟩

/-- The first parser does what the second does, and takes a semicolon then, if there is one. -/
def EndsWithSemicolon (p q : Parser α) : Prop :=
  ∀ c a c', p c = .ok (a, c') ↔ ∃ between, q c = .ok (a, between) ∧ c' = skipSemicolon between

theorem EndsWithSemicolon.bind {p : Parser α} {k l : α → Parser β}
    (h : ∀ a, EndsWithSemicolon (k a) (l a)) : EndsWithSemicolon (p >>= k) (p >>= l) := by
  intro c b c'
  constructor
  · intro hanswer
    obtain ⟨⟨a, d⟩, hp, hk⟩ := bind_eq_ok.mp hanswer
    obtain ⟨between, hl, hc'⟩ := (h a d b c').mp hk
    exact ⟨between, bind_eq_ok.mpr ⟨(a, d), hp, hl⟩, hc'⟩
  · rintro ⟨between, hanswer, hc'⟩
    obtain ⟨⟨a, d⟩, hp, hl⟩ := bind_eq_ok.mp hanswer
    exact bind_eq_ok.mpr ⟨(a, d), hp, (h a d b c').mpr ⟨between, hl, hc'⟩⟩

theorem endsWithSemicolon_fail (expected : Expected) :
    EndsWithSemicolon (fail expected : Parser α) (fail expected) := by
  intro c a c'
  constructor
  · exact fun h => absurd h (fail_ne_ok expected c _)
  · rintro ⟨between, h, _⟩
    exact absurd h (fail_ne_ok expected c _)

theorem EndsWithSemicolon.map {p q : Parser α} (h : EndsWithSemicolon p q) (f : α → β) :
    EndsWithSemicolon (do return f (← p)) (do return f (← q)) := by
  intro c b c'
  constructor
  · intro hanswer
    obtain ⟨⟨a, d⟩, hp, hpure⟩ := bind_eq_ok.mp hanswer
    cases hpure
    obtain ⟨between, hq, hc'⟩ := (h c a c').mp hp
    exact ⟨between, bind_eq_ok.mpr ⟨(a, between), hq, rfl⟩, hc'⟩
  · rintro ⟨between, hanswer, hc'⟩
    obtain ⟨⟨a, d⟩, hq, hpure⟩ := bind_eq_ok.mp hanswer
    cases hpure
    exact bind_eq_ok.mpr ⟨(a, c'), (h c a c').mpr ⟨between, hq, hc'⟩, rfl⟩

theorem endsWithSemicolon_pure (a : α) :
    EndsWithSemicolon (do let _ ← eat .semicolon; return a) (pure a : Parser α) := by
  intro c b c'
  obtain ⟨found, heat⟩ := eat_semicolon c
  rw [bind_eq_of_eq_ok heat]
  constructor
  · intro h
    cases h
    exact ⟨c, rfl, rfl⟩
  · rintro ⟨between, h, rfl⟩
    cases h
    rfl

/-- A declaration after its header, without its semicolon. -/
def openDeclaration (tags : List (TagItem TokenRange)) (words : List (Located TokenRange Name))
    (name : Located TokenRange Name) : Parser (Declaration TokenRange) := do
  let modifiers ← modifiers words
  let body ← body (← remaining)
  return ⟨name, tags, modifiers, body⟩

/-- A statement after its first word `default`, without its semicolon. -/
def openDefault (first : Located TokenRange Name) : Parser Statement := do
  let words ← defaultWords (← remaining)
  if ← sees .leftBrace then
    return .declaration
      (← openDeclaration [] (first :: words).dropLast (words.getLast?.getD first))
  else return .defaults (← modifiers words)

/-- A declaration after its first word, without its semicolon. -/
def openHeaded (tags : List (TagItem TokenRange)) (first : Located TokenRange Name) :
    Parser (Declaration TokenRange) := do
  let (words, name) ← headerWords (← remaining) first
  if ← sees .leftBrace then openDeclaration tags words name else fail (.symbol .leftBrace)

/-- A statement without its semicolon. -/
def openStatement : Parser Statement := do
  let tags ← tags (← remaining)
  match ← word? with
  | none => fail .declaration
  | some first =>
    if tags.isEmpty && first.val == "default" then openDefault first
    else return .declaration (← openHeaded tags first)

theorem endsWithSemicolon_declaration (tags : List (TagItem TokenRange))
    (words : List (Located TokenRange Name)) (name : Located TokenRange Name) :
    EndsWithSemicolon (declaration tags words name) (openDeclaration tags words name) := by
  intro c a c'
  rw [declaration, within_eq_ok]
  exact EndsWithSemicolon.bind (fun modifiers => .bind fun n => .bind fun body =>
    endsWithSemicolon_pure _) c a c'

/-- Words stand for modifiers wherever they are, or nowhere. -/
theorem modifiers_eq (words : List (Located TokenRange Name)) :
    (∃ found, modifiers words = (pure found : Parser _)) ∨
      ∃ fault, modifiers words = (throw fault : Parser _) := by
  induction words with
  | nil => exact .inl ⟨[], rfl⟩
  | cons w words ih =>
    rw [modifiers]
    cases Modifier.ofWord? w.val with
    | none => exact .inr ⟨_, rfl⟩
    | some modifier =>
      rcases ih with ⟨found, h⟩ | ⟨fault, h⟩
      · exact .inl ⟨⟨modifier, w.pos⟩ :: found, by rw [h]; rfl⟩
      · exact .inr ⟨fault, by rw [h]; rfl⟩

theorem endsWithSemicolon_defaults (words : List (Located TokenRange Name)) :
    EndsWithSemicolon (do let _ ← eat .semicolon; return Statement.defaults (← modifiers words))
      (do return Statement.defaults (← modifiers words)) := by
  rcases modifiers_eq words with ⟨found, h⟩ | ⟨fault, h⟩
  · rw [h]
    exact endsWithSemicolon_pure (Statement.defaults found)
  · rw [h]
    intro c a c'
    obtain ⟨found, heat⟩ := eat_semicolon c
    rw [bind_eq_of_eq_ok heat]
    constructor
    · intro h
      cases h
    · rintro ⟨between, h, _⟩
      cases h

theorem endsWithSemicolon_headed (tags : List (TagItem TokenRange))
    (first : Located TokenRange Name) : EndsWithSemicolon (do
      let (words, name) ← headerWords (← remaining) first
      if ← sees .leftBrace then
        return Statement.declaration (← declaration tags words name)
      else fail (.symbol .leftBrace)) (do return .declaration (← openHeaded tags first)) := by
  simp only [openHeaded, bind_assoc]
  refine .bind fun n => .bind fun header => .bind fun opened => ?_
  cases opened with
  | false =>
    rw [if_neg Bool.false_ne_true, if_neg Bool.false_ne_true, fail_bind]
    exact endsWithSemicolon_fail _
  | true => exact (endsWithSemicolon_declaration tags header.1 header.2).map _

theorem endsWithSemicolon_statement : EndsWithSemicolon statement openStatement := by
  refine .bind fun n => .bind fun tags => .bind fun found => ?_
  cases found with
  | none => exact endsWithSemicolon_fail .declaration
  | some first =>
    dsimp only
    split
    · refine .bind fun n => .bind fun words => .bind fun opened => ?_
      split
      · exact (endsWithSemicolon_declaration _ _ _).map _
      · exact endsWithSemicolon_defaults words
    · exact endsWithSemicolon_headed tags first

/-! ### Statements elsewhere -/

/-- What a statement says, without positions. -/
def Statement.bare (s : Statement) : List (Located Unit Modifier) × Option (Declaration Unit) :=
  (s.modifiers.map (·.move nowhere), s.declaration?.map (·.move nowhere))

theorem mirrors_openDeclaration {tags tags' : List (TagItem TokenRange)}
    {words words' : List (Located TokenRange Name)} {name name' : Located TokenRange Name}
    (htags : tags.map (·.move nowhere) = tags'.map (·.move nowhere))
    (hwords : words.map (·.move nowhere) = words'.map (·.move nowhere))
    (hname : name.move nowhere = name'.move nowhere) :
    Mirrors .nothing n m (openDeclaration tags words name) (openDeclaration tags' words' name')
      (Declaration.move nowhere) := by
  refine .bind (mirrors_modifiers hwords) fun modifiers modifiers' hmodifiers =>
    mirrors_remaining fun _ _ => .bind mirrors_body fun body body' hbody => mirrors_pure ?_
  simp only [Declaration.move, Body.move, htags, hname, hmodifiers, hbody]

theorem closes_openDeclaration (tags : List (TagItem TokenRange))
    (words : List (Located TokenRange Name)) (name : Located TokenRange Name) :
    Closes (openDeclaration tags words name) :=
  .after (advances_modifiers words) fun _ => .after advances_remaining
    fun n => .map (closes_body n) _

/-- A declaration after its header, where a body has to follow. -/
def openBody (tags : List (TagItem TokenRange))
    (header : List (Located TokenRange Name) × Located TokenRange Name) :
    Parser (Declaration TokenRange) := do
  if ← sees .leftBrace then openDeclaration tags header.1 header.2
  else fail (.symbol .leftBrace)

theorem closes_openBody (tags : List (TagItem TokenRange))
    (header : List (Located TokenRange Name) × Located TokenRange Name) :
    Closes (openBody tags header) := by
  refine .after (advances_sees .leftBrace) fun opened => ?_
  cases opened with
  | false => exact takes_fail _
  | true => exact closes_openDeclaration tags header.1 header.2

theorem mirrors_openBody {tags tags' : List (TagItem TokenRange)}
    {header header' : List (Located TokenRange Name) × Located TokenRange Name}
    (htags : tags.map (·.move nowhere) = tags'.map (·.move nowhere))
    (hwords : header.1.map (·.move nowhere) = header'.1.map (·.move nowhere))
    (hname : header.2.move nowhere = header'.2.move nowhere) :
    Mirrors .nothing n m (openBody tags header) (openBody tags' header')
      (Declaration.move nowhere) := by
  refine .sees_taken (fun opened => ?_) fun opened => ?_
  · cases opened with
    | false => exact mirrors_fail
    | true => exact mirrors_openDeclaration htags hwords hname
  · cases opened with
    | false => exact takes_fail _
    | true => exact (closes_openDeclaration tags header.1 header.2).progresses

theorem closes_openHeaded (tags : List (TagItem TokenRange)) (first : Located TokenRange Name) :
    Closes (openHeaded tags first) :=
  .after advances_remaining fun n => .after (takes_headerWords n first) (closes_openBody tags)

theorem mirrors_openHeaded {tags tags' : List (TagItem TokenRange)}
    {first first' : Located TokenRange Name}
    (htags : tags.map (·.move nowhere) = tags'.map (·.move nowhere))
    (hfirst : first.move nowhere = first'.move nowhere) :
    Mirrors .nothing n m (openHeaded tags first) (openHeaded tags' first')
      (Declaration.move nowhere) := by
  refine mirrors_remaining fun n _ => .close 0 (mirrors_headerWords hfirst)
    ((takes_headerWords n first).mono fun _ _ _ => Nat.zero_le _) (fun header header' hheader => ?_)
    (closes_openBody tags) Closed.full_alike
  obtain ⟨hwords, hname⟩ := Prod.mk.inj hheader
  exact mirrors_openBody htags hwords hname

/-- A declaration, whatever its first word is. -/
def openHeader : Parser (Declaration TokenRange) := do
  let tags ← tags (← remaining)
  match ← word? with
  | none => fail .declaration
  | some first => openHeaded tags first

theorem closes_openFound (tags : List (TagItem TokenRange))
    (found : Option (Located TokenRange Name)) : Closes (match found with
      | none => fail .declaration
      | some first => openHeaded tags first) := by
  cases found with
  | none => exact takes_fail _
  | some first => exact closes_openHeaded tags first

theorem closes_openHeader : Closes openHeader :=
  .after advances_remaining fun n => .after (advances_tags n) fun tags =>
    .after takes_word? (closes_openFound tags)

theorem mirrors_openHeader :
    Mirrors .nothing n m openHeader openHeader (Declaration.move nowhere) := by
  refine mirrors_remaining fun n _ => .close 0 mirrors_tags
    ((advances_tags n).mono fun _ _ _ => Nat.zero_le _) (fun tags tags' htags => ?_)
    (fun tags => .after takes_word? (closes_openFound tags)) Closed.full_alike
  refine .close 0 mirrors_word? (.mono takes_word? fun _ _ _ => Nat.zero_le _)
    (fun found found' hfound => ?_) (closes_openFound tags) Closed.full_alike
  match found, found', hfound with
  | none, none, _ => exact mirrors_fail
  | some first, some first', hfound =>
    exact mirrors_openHeaded htags (Option.some.inj hfound)

section Words

variable {first first' : Located TokenRange Name} {words words' : List (Located TokenRange Name)}
  (hfirst : first.move nowhere = first'.move nowhere)
  (hwords : words.map (·.move nowhere) = words'.map (·.move nowhere))

include hfirst hwords

theorem dropLast_move : (first :: words).dropLast.map (·.move nowhere) =
    (first' :: words').dropLast.map (·.move nowhere) := by
  rw [List.map_dropLast, List.map_dropLast, List.map_cons, List.map_cons, hfirst, hwords]

theorem last_move : (words.getLast?.getD first).move nowhere =
    (words'.getLast?.getD first').move nowhere := by
  have hlast : ∀ (words : List (Located TokenRange Name)) (first : Located TokenRange Name),
      (words.getLast?.getD first).move nowhere =
        (words.map (·.move nowhere)).getLast?.getD (first.move nowhere) :=
    fun words first => by rw [List.getLast?_map, Option.getD_map]
  rw [hlast, hlast, hwords, hfirst]

end Words

/-- A statement that starts with `default`, where a body has to follow. -/
def openDefaultBody (first : Located TokenRange Name) : Parser (Declaration TokenRange) := do
  let words ← defaultWords (← remaining)
  openBody [] ((first :: words).dropLast, words.getLast?.getD first)

theorem closes_openDefaultBody (first : Located TokenRange Name) :
    Closes (openDefaultBody first) :=
  .after advances_remaining fun n => .after (takes_defaultWords n) fun _ => closes_openBody [] _

theorem mirrors_openDefaultBody {first first' : Located TokenRange Name}
    (hfirst : first.move nowhere = first'.move nowhere) :
    Mirrors .nothing n m (openDefaultBody first) (openDefaultBody first')
      (Declaration.move nowhere) :=
  mirrors_remaining fun n _ => .close 0 mirrors_defaultWords
    ((takes_defaultWords n).mono fun _ _ _ => Nat.zero_le _)
    (fun _ _ hwords => mirrors_openBody rfl (dropLast_move hfirst hwords)
      (last_move hfirst hwords))
    (fun _ => closes_openBody [] _) Closed.only_alike

theorem mirrors_openDefault {first first' : Located TokenRange Name}
    (hfirst : first.move nowhere = first'.move nowhere) :
    Mirrors .words n m (openDefault first) (openDefault first') Statement.bare := by
  refine mirrors_remaining fun _ _ => .bind mirrors_defaultWords fun words words' hwords =>
    .sees (Lookahead.words_tells rfl) fun opened => ?_
  cases opened with
  | false =>
    exact .bind (mirrors_modifiers hwords) fun _ _ hmodifiers =>
      mirrors_pure (congrArg (Prod.mk · none) hmodifiers)
  | true =>
    exact .bind (mirrors_openDeclaration rfl (dropLast_move hfirst hwords)
      (last_move hfirst hwords)).of_nothing fun _ _ hd =>
        mirrors_pure (congrArg (fun d => ([], some d)) hd)

theorem openStatement_default {c : Cursor} (h : c.ahead.head? = some (.word "default")) :
    openStatement c = (word >>= openDefault) c := by
  obtain ⟨ahead, index⟩ := c
  obtain ⟨rest, rfl⟩ : ∃ rest, ahead = .word "default" :: rest := List.head?_eq_some_iff.mp h
  rfl

theorem tags_eq_nil {c c' : Cursor} (h : tags n c = .ok ([], c')) : c' = c := by
  cases n with
  | zero =>
    cases h
    rfl
  | succ n =>
    have htags : tags (n + 1) c = (if c.ahead.head? == some (.symbol .atSign) then
      (do let first ← tag; return first :: (← tags n)) else return [] : Parser _) c := rfl
    rw [htags] at h
    split at h
    · obtain ⟨⟨first, d⟩, _, hrest⟩ := bind_eq_ok.mp h
      obtain ⟨⟨more, e⟩, _, hpure⟩ := bind_eq_ok.mp hrest
      cases hpure
    · cases h
      rfl

theorem head?_of_word? {c c' : Cursor} {w : Located TokenRange Name}
    (h : word? c = .ok (some w, c')) : c.ahead.head? = some (.word w.val) := by
  by_cases hnext : ∃ name, c.ahead.head? = some (.word name)
  · obtain ⟨name, hname⟩ := hnext
    obtain ⟨rest, ht⟩ := List.head?_eq_some_iff.mp hname
    cases (word?_of_head ht).symm.trans h
    exact hname
  · cases (word?_of_not_head (not_exists.mp hnext)).symm.trans h

/-- Only a statement that starts with `default` may give modifiers to all types. -/
theorem openStatement_of_not_default {c : Cursor} (h : c.ahead.head? ≠ some (.word "default")) :
    openStatement c = (do return Statement.declaration (← openHeader)) c := by
  simp only [openHeader, bind_assoc]
  refine bind_congr_of_ok fun n d hremaining => ?_
  cases hremaining
  refine bind_congr_of_ok fun tags d htags => bind_congr_of_ok fun found e hfound => ?_
  cases found with
  | none => rw [fail_bind]
  | some first =>
    refine congrFun (if_neg fun hdefault => ?_) e
    obtain ⟨hempty, hfirst⟩ := Bool.and_eq_true_iff.mp hdefault
    obtain rfl : tags = [] := List.isEmpty_iff.mp hempty
    obtain rfl : d = c := tags_eq_nil htags
    exact h (eq_of_beq hfirst ▸ head?_of_word? hfound)

/-- What a statement that starts with `default` is. -/
theorem openDefault_cases {first : Located TokenRange Name} {c c' : Cursor} {s : Statement}
    (h : openDefault first c = .ok (s, c')) :
    (∃ d, s = .declaration d ∧ openDefaultBody first c = .ok (d, c')) ∨
      ∃ found words, s = .defaults found ∧ defaultWords c.ahead.length c = .ok (words, c') := by
  obtain ⟨⟨words, d⟩, hwords, hrest⟩ := bind_eq_ok.mp h
  by_cases hopened : (d.ahead.head? == some (.symbol .leftBrace)) = true
  · obtain ⟨⟨declared, e⟩, hdeclared, hpure⟩ :=
      bind_eq_ok.mp ((congrFun (if_pos hopened) d).symm.trans hrest)
    cases hpure
    refine .inl ⟨declared, rfl, bind_eq_ok.mpr ⟨(words, d), hwords, ?_⟩⟩
    exact (congrFun (if_pos hopened) d).trans hdeclared
  · have hmodifiers := (congrFun (if_neg hopened) d).symm.trans hrest
    rcases modifiers_eq words with ⟨found, heq⟩ | ⟨fault, heq⟩
    · rw [heq] at hmodifiers
      cases hmodifiers
      exact .inr ⟨found, words, rfl, hwords⟩
    · rw [heq] at hmodifiers
      cases hmodifiers

theorem openDefault_of_openDefaultBody {first : Located TokenRange Name} {c c' : Cursor}
    {d : Declaration TokenRange} (h : openDefaultBody first c = .ok (d, c')) :
    openDefault first c = .ok (.declaration d, c') := by
  obtain ⟨⟨words, e⟩, hwords, hrest⟩ := bind_eq_ok.mp h
  by_cases hopened : (e.ahead.head? == some (.symbol .leftBrace)) = true
  · refine bind_eq_ok.mpr ⟨(words, e), hwords, (congrFun (if_pos hopened) e).trans ?_⟩
    exact bind_eq_ok.mpr ⟨(d, c'), (congrFun (if_pos hopened) e).symm.trans hrest, rfl⟩
  · exact absurd ((congrFun (if_neg hopened) e).symm.trans hrest) (fail_ne_ok _ e _)

/-- How the tokens of a statement look, without its semicolon. -/
def Statement.Covers : Statement → List Token → Prop
  | .declaration _, taken => Closed taken
  | .defaults _, taken => ∃ words, taken = .word "default" :: words ∧ ∀ t ∈ words, t.goesOn

/-- What follows a statement matters to it only where its words may go on. -/
def Statement.lookahead : Statement → Lookahead
  | .declaration _ => .nothing
  | .defaults _ => .words

theorem Statement.Covers.ne_nil {s : Statement} {taken : List Token} (h : s.Covers taken) :
    taken ≠ [] := by
  cases s with
  | declaration d => exact Closed.ne_nil h
  | defaults found =>
    obtain ⟨words, rfl, _⟩ := h
    exact List.cons_ne_nil _ _

/-- The statement covers the tokens between two cursors, and it is read wherever these are ahead
with a rest that looks alike. -/
def Statement.Readable (s : Statement) (c c' : Cursor) : Prop :=
  ∃ taken, c.ahead = taken ++ c'.ahead ∧ .symbol .semicolon ∉ taken ∧ s.Covers taken ∧
    ∀ d rest, s.lookahead.Alike c'.ahead rest → d.ahead = taken ++ rest →
      ∃ s' d', openStatement d = .ok (s', d') ∧ d'.ahead = rest ∧ s.bare = s'.bare

/-- It is enough to look at a parser that reads what starts with the next token. -/
theorem readable_of_mirrors {p : Parser Statement} {c c' : Cursor} {s : Statement}
    (hmirrors : ∀ m, Mirrors s.lookahead c.ahead.length m p p Statement.bare)
    (hp : p c = .ok (s, c')) (hcovers : ∀ taken, c.ahead = taken ++ c'.ahead → s.Covers taken)
    (hopen : ∀ d result, d.ahead.head? = c.ahead.head? → p d = .ok result →
      openStatement d = .ok result) : s.Readable c c' := by
  obtain ⟨taken, hahead, hsemi, hmirror⟩ :=
    MirrorsAt.everywhere (fun m => hmirrors m c (Nat.le_refl _)) hp
  have htaken := hcovers taken hahead
  refine ⟨taken, hahead, hsemi, htaken, fun d rest hrest hd => ?_⟩
  obtain ⟨s', d', hanswer, hd', hbare⟩ := hmirror d rest hrest hd
  have hnext : d.ahead.head? = c.ahead.head? := by
    rw [hd, hahead, List.head?_append_of_ne_nil _ htaken.ne_nil,
      List.head?_append_of_ne_nil _ htaken.ne_nil]
  exact ⟨s', d', hopen d _ hnext hanswer, hd', hbare⟩

theorem readable_declaration {p : Parser (Declaration TokenRange)} {c c' : Cursor}
    {d : Declaration TokenRange}
    (hmirrors : ∀ m, Mirrors .nothing c.ahead.length m p p (Declaration.move nowhere))
    (hcloses : Closes p) (hp : p c = .ok (d, c'))
    (hopen : ∀ e d e', e.ahead.head? = c.ahead.head? → p e = .ok (d, e') →
      openStatement e = .ok (.declaration d, e')) : (Statement.declaration d).Readable c c' := by
  have hmirrors : ∀ m, Mirrors (Statement.declaration d).lookahead c.ahead.length m
      (do return Statement.declaration (← p)) (do return Statement.declaration (← p))
      Statement.bare := fun m =>
    .bind (hmirrors m) fun _ _ h => mirrors_pure (congrArg (fun d => ([], some d)) h)
  refine readable_of_mirrors hmirrors (bind_eq_ok.mpr ⟨(d, c'), hp, rfl⟩)
    (fun taken hahead => hcloses.of_ahead hp hahead) fun e result he hanswer => ?_
  obtain ⟨⟨d', e'⟩, hd', hpure⟩ := bind_eq_ok.mp hanswer
  cases hpure
  exact hopen e d' e' he hd'

theorem readable_of_openStatement {c c' : Cursor} {s : Statement}
    (h : openStatement c = .ok (s, c')) : s.Readable c c' := by
  by_cases hnext : c.ahead.head? = some (.word "default")
  · rw [openStatement_default hnext] at h
    obtain ⟨⟨first, e⟩, hword, hrest⟩ := bind_eq_ok.mp h
    rcases openDefault_cases hrest with ⟨d, rfl, hbody⟩ | ⟨found, words, rfl, hwords⟩
    · refine readable_declaration (fun m => .word fun _ _ hw => mirrors_openDefaultBody hw)
        (.after takes_word closes_openDefaultBody) (bind_eq_ok.mpr ⟨(first, e), hword, hbody⟩) ?_
      intro e d e' he hanswer
      rw [openStatement_default (he.trans hnext)]
      obtain ⟨⟨first, f⟩, hword, hbody⟩ := bind_eq_ok.mp hanswer
      exact bind_eq_ok.mpr ⟨(first, f), hword, openDefault_of_openDefaultBody hbody⟩
    · refine readable_of_mirrors (fun m => .word fun _ _ hw => mirrors_openDefault hw) h
        (fun taken hahead => ?_) fun d result hd hanswer => by
          rwa [openStatement_default (hd.trans hnext)]
      obtain ⟨_, hfirst, rfl⟩ := takes_just_word.exists_append hword
      obtain ⟨more, hmore, hgoes⟩ := (goesOn_of_defaultWords _).exists_append hwords
      rw [hfirst] at hnext
      have hdefault : .word first.val = Token.word "default" := Option.some.inj hnext
      refine ⟨more, List.append_cancel_right (hahead.symm.trans ?_), hgoes⟩
      rw [hfirst, hmore, hdefault]
      rfl
  · rw [openStatement_of_not_default hnext] at h
    obtain ⟨⟨d, _⟩, hheader, hpure⟩ := bind_eq_ok.mp h
    cases hpure
    refine readable_declaration (fun _ => mirrors_openHeader) closes_openHeader hheader ?_
    intro e d e' he hanswer
    rw [openStatement_of_not_default (he ▸ hnext)]
    exact bind_eq_ok.mpr ⟨(d, e'), hanswer, rfl⟩

end Parser

end Projection
