import Projection.Token.Lexer

/-!
# How tokens are written

`Token.spelling` writes a token down, and `layout` writes a row of tokens with blanks where they are
needed. The lexer reads them back: `scan_spelling` for one token, whatever follows it, as long as
that cannot be taken for more of the token, and `spells_layoutLines` for whole lines.

Decimals are left out. They have many spellings, and comments and blanks carry no meaning.
-/

namespace Projection

/-- A check of all members of joined rows is one of every row, if the separator passes it. -/
theorem List.all_intercalate {α : Type} {p : α → Bool} {separator : List α}
    (hseparator : separator.all p = true) (rows : List (List α)) :
    (separator.intercalate rows).all p = rows.all (·.all p) := by
  induction rows with
  | nil => rfl
  | cons row rows ih =>
    cases rows with
    | nil => simp
    | cons next rows =>
      rw [List.intercalate_cons_cons, List.all_append, List.all_append, ih, hseparator,
        Bool.and_true]
      rfl

namespace Token

/-! ### Spellings -/

/-- A word that is no keyword. -/
def isIdentifier (name : String) : Bool :=
  name.toList.all isWordChar && name.toList.head?.any (!·.isDigit) &&
    name != Keyword.exportWord.text && name != Keyword.asWord.text

/-- A character as it is written between quotes. -/
def escaped : Char → List Char
  | '"' => ['\\', '"']
  | '\\' => ['\\', '\\']
  | '\n' => ['\\', 'n']
  | '\r' => ['\\', 'r']
  | '\t' => ['\\', 't']
  | '\x00' => ['\\', '0']
  | c => [c]

/-- The token as it is written. -/
def spelling : Token → List Char
  | keyword k => k.text.toList
  | word name => name.toList
  | quoted value => '"' :: (value.toList.flatMap escaped ++ ['"'])
  | integer value => Nat.toDigits 10 value
  | symbol s => s.text.toList
  | decimal _ | lineComment _ | blockComment _ | blank | newline => []

/-- The token has a spelling. -/
def isSpellable : Token → Bool
  | word name => isIdentifier name
  | integer value => decide (value < Nat.pow 2 63)
  | keyword _ | quoted _ | symbol _ => true
  | decimal _ | lineComment _ | blockComment _ | blank | newline => false

/-- What follows cannot be taken for more of the token. -/
def endsBefore (t : Token) (rest : List Char) : Bool :=
  match t with
  | keyword _ | word _ => rest.head?.all (!isWordChar ·)
  | integer _ => rest.head?.all fun c => !isWordChar c && c != '.'
  | symbol .minus => rest.head? != some '>'
  | _ => true

/-! ### One token -/

section Scan

variable {c : Char} {cs rest : List Char}

theorem scanComment_eq_none (h : c ≠ '/') : scanComment (c :: cs) = none := by
  unfold scanComment
  split <;> simp_all

theorem scanQuoted_eq_none (h : c ≠ '"') : scanQuoted (c :: cs) = none := by
  unfold scanQuoted
  split <;> simp_all

theorem scanNumber_eq_none (h : c.isDigit = false) : scanNumber (c :: cs) = none := by
  simp [scanNumber, h]

theorem ne_of_isWordChar {d : Char} (h : isWordChar c = true) (hd : isWordChar d = false) :
    c ≠ d := by
  rintro rfl
  rw [h] at hd
  cases hd

theorem isWordChar_of_isDigit (h : c.isDigit = true) : isWordChar c = true := by
  simp [isWordChar, Char.isAlphanum, h]

theorem isDigit_eq_false (h : isWordChar c = false) : c.isDigit = false := by
  refine Bool.eq_false_iff.mpr ?_
  intro hc
  rw [isWordChar_of_isDigit hc] at h
  cases h

/-- A run of characters of one kind ends before a character of another. -/
theorem takeWhile_run {p : Char → Bool} {run : List Char} (hrun : run.all p = true)
    (hrest : rest.head?.all (!p ·) = true) : (run ++ rest).takeWhile p = run := by
  rw [List.takeWhile_append_of_pos (List.all_eq_true.mp hrun)]
  cases rest with
  | nil => simp
  | cons d rest =>
    have hd : p d = false := by simpa using hrest
    simp [hd]

theorem dropWhile_run {p : Char → Bool} {run : List Char} (hrun : run.all p = true)
    (hrest : rest.head?.all (!p ·) = true) : (run ++ rest).dropWhile p = rest := by
  rw [List.dropWhile_append_of_pos (List.all_eq_true.mp hrun)]
  cases rest with
  | nil => rfl
  | cons d rest =>
    have hd : p d = false := by simpa using hrest
    simp [hd]

/-- A run of word characters is read as a word or a keyword. -/
theorem scan_run {name : String} (hall : name.toList.all isWordChar = true)
    (hhead : name.toList.head?.any (!·.isDigit) = true)
    (hrest : rest.head?.all (!isWordChar ·) = true) :
    scan (name.toList ++ rest) = .token
      (if name == Keyword.exportWord.text then .keyword .exportWord
        else if name == Keyword.asWord.text then .keyword .asWord else .word name)
      name.toList.length := by
  cases hname : name.toList with
  | nil => simp [hname] at hhead
  | cons c cs =>
    have hdigit : c.isDigit = false := by simpa [hname] using hhead
    have hc : isWordChar c = true := by
      rw [hname, List.all_cons, Bool.and_eq_true] at hall
      exact hall.1
    have hword : scanWord (c :: cs ++ rest) = some (.token
        (if name == Keyword.exportWord.text then .keyword .exportWord
          else if name == Keyword.asWord.text then .keyword .asWord else .word name)
        (c :: cs).length) := by
      have hrun := takeWhile_run hall hrest
      rw [hname] at hrun
      have hofList : String.ofList (c :: cs) = name := by rw [← hname, String.ofList_toList]
      simp only [scanWord, hrun, hofList]
      simp [hdigit]
    have hslash : c ≠ '/' := ne_of_isWordChar hc (by decide)
    have hquote : c ≠ '"' := ne_of_isWordChar hc (by decide)
    unfold scan
    rw [hword, List.cons_append, scanComment_eq_none hslash, scanQuoted_eq_none hquote,
      scanNumber_eq_none hdigit]
    rfl

theorem head?_not_isDigit (h : rest.head?.any isWordChar = false) :
    rest.head?.all (!Char.isDigit ·) = true := by
  cases rest with
  | nil => rfl
  | cons c rest => exact congrArg not (isDigit_eq_false h)

theorem fractionDigits_eq_nil (h : rest.head? ≠ some '.') : fractionDigits rest = [] := by
  unfold fractionDigits
  split
  · exact absurd rfl h
  · rfl

/-- Digits without a point behind them that has more. -/
theorem scanNumber_whole {whole : List Char} (hne : whole ≠ [])
    (hwhole : whole.all Char.isDigit = true) (hrest : rest.head?.any isWordChar = false)
    (hfraction : fractionDigits rest = []) :
    scanNumber (whole ++ rest) = some (if Binary64.digitsValue whole < Nat.pow 2 63
      then .token (.integer (Binary64.digitsValue whole)) whole.length
      else .fault .numberOutOfRange 0 whole.length) := by
  have hdigit := head?_not_isDigit hrest
  have htake := takeWhile_run hwhole hdigit
  have hdrop := dropWhile_run hwhole hdigit
  simp only [scanNumber, htake, hdrop, hfraction, List.isEmpty_nil, if_true, hrest, Bool.or_false]
  rw [if_neg (by simpa using hne), apply_ite some]

theorem scan_of_scanNumber {whole : List Char} {s : Scan} (hne : whole ≠ [])
    (hwhole : whole.all Char.isDigit = true) (h : scanNumber (whole ++ rest) = some s) :
    scan (whole ++ rest) = s := by
  cases whole with
  | nil => contradiction
  | cons c whole =>
    rw [List.all_cons, Bool.and_eq_true] at hwhole
    have hc := isWordChar_of_isDigit hwhole.1
    have hslash : c ≠ '/' := ne_of_isWordChar hc (by decide)
    have hquote : c ≠ '"' := ne_of_isWordChar hc (by decide)
    rw [scan, h, List.cons_append, scanComment_eq_none hslash, scanQuoted_eq_none hquote]
    rfl

theorem scan_integer {value : Nat} (hvalue : value < Nat.pow 2 63)
    (hrest : rest.head?.all (fun c => !isWordChar c && c != '.') = true) :
    scan (Nat.toDigits 10 value ++ rest) =
      .token (.integer value) (Nat.toDigits 10 value).length := by
  have hdigits : (Nat.toDigits 10 value).all Char.isDigit = true := by
    rw [List.all_eq_true]
    intro c hc
    exact Nat.isDigit_of_mem_toDigits (by decide) (by decide) hc
  have hread : Binary64.digitsValue (Nat.toDigits 10 value) = value :=
    Nat.ofDigitChars_ten_toDigits
  have hends : rest.head?.any isWordChar = false ∧ rest.head? ≠ some '.' := by
    cases rest with
    | nil => exact ⟨rfl, nofun⟩
    | cons d rest => simpa using hrest
  have hnumber := scanNumber_whole Nat.toDigits_ne_nil hdigits hends.1
    (fractionDigits_eq_nil hends.2)
  rw [hread, if_pos hvalue] at hnumber
  exact scan_of_scanNumber Nat.toDigits_ne_nil hdigits hnumber

/-- Between quotes a character is read as what it was written for. -/
theorem scanInside_escaped (c : Char) (cs : List Char) :
    scanInside 0 (escaped c ++ cs) =
      ⟨c :: (scanInside 0 cs).value, (scanInside 0 cs).size + (escaped c).length,
        (scanInside 0 cs).ending⟩ := by
  unfold escaped
  split
  case h_7 hquote hbackslash hnewline hreturn _ _ =>
    have hend : ¬(c = '\n' ∨ c = '\r') := by rintro (rfl | rfl) <;> contradiction
    simp [scanInside, if_neg hquote, if_neg hbackslash, if_neg hend]
  all_goals simp [scanInside, escape]

theorem scanInside_spelled (value : List Char) :
    scanInside 0 (value.flatMap escaped ++ '"' :: rest) =
      ⟨value, (value.flatMap escaped).length, .closed⟩ := by
  induction value with
  | nil => rfl
  | cons c value ih =>
    rw [List.flatMap_cons, List.append_assoc, scanInside_escaped, ih, List.length_append,
      Nat.add_comm]

theorem scan_quoted (value : String) :
    scan ((Token.quoted value).spelling ++ rest) =
      .token (.quoted value) (Token.quoted value).spelling.length := by
  have hchars : (Token.quoted value).spelling ++ rest =
      '"' :: (value.toList.flatMap escaped ++ '"' :: rest) := by
    simp [spelling]
  have hquoted : scanQuoted ((Token.quoted value).spelling ++ rest) =
      some (.token (.quoted value) (Token.quoted value).spelling.length) := by
    rw [hchars, scanQuoted, scanInside_spelled]
    simp [spelling, String.ofList_toList]
  unfold scan
  rw [hquoted, hchars, scanComment_eq_none (by decide)]
  rfl

theorem scan_symbol {s : Symbol} (h : (Token.symbol s).endsBefore rest = true) :
    scan (s.text.toList ++ rest) = .token (.symbol s) s.text.toList.length := by
  cases s with
  | minus =>
    have hnot : rest.head? ≠ some '>' := by simpa [endsBefore] using h
    cases rest with
    | nil => rfl
    | cons c rest =>
      have hc : c ≠ '>' := by simpa using hnot
      have hsymbol : scanSymbol ('-' :: c :: rest) = some (.token (.symbol .minus) 1) := by
        unfold scanSymbol
        split
        · simp_all
        · rename_i heq
          obtain ⟨rfl, _⟩ := List.cons.inj heq
          rfl
        · contradiction
      change scan ('-' :: c :: rest) = _
      unfold scan
      rw [hsymbol]
      rfl
  | _ => rfl

/-- **A spelling is read as its token**, before anything that cannot be more of it. -/
theorem scan_spelling {t : Token} (ht : t.isSpellable = true) (h : t.endsBefore rest = true) :
    scan (t.spelling ++ rest) = .token t t.spelling.length := by
  cases t with
  | keyword k =>
    cases k with
    | exportWord => exact scan_run rfl rfl h
    | asWord => exact scan_run rfl rfl h
  | word name =>
    simp only [isSpellable, isIdentifier, Bool.and_eq_true] at ht
    obtain ⟨⟨⟨hall, hhead⟩, hexport⟩, has⟩ := ht
    rw [spelling, scan_run hall hhead h]
    simp_all
  | quoted value => exact scan_quoted value
  | integer value => exact scan_integer (of_decide_eq_true ht) h
  | symbol s => exact scan_symbol h
  | _ => cases ht

end Scan

/-! ### Rows of tokens -/

/-- The tokens that carry meaning. -/
def significant {P : Type} (tokens : List (Located P Token)) : List Token :=
  (tokens.filter fun t => !t.val.isTrivia).map (·.val)

/-- The characters are read without a fault, and these are the tokens that carry meaning. -/
def Spells (cs : List Char) (tokens : List Token) : Prop :=
  ∀ offset, ∃ all : List Token, (pieces offset 0 cs).map (·.val) = all.map .ok ∧
    all.filter (!·.isTrivia) = tokens

section Spells

variable {cs rest : List Char} {t : Token} {tokens : List Token}

theorem pieces_skip (offset n : Nat) (cs : List Char) :
    pieces offset n cs = pieces (offset + byteSize (cs.take n)) 0 (cs.drop n) := by
  induction cs generalizing offset n with
  | nil => cases n <;> rfl
  | cons c cs ih =>
    cases n with
    | zero => rfl
    | succ n =>
      rw [pieces, ih, List.take_succ_cons, List.drop_succ_cons, Nat.add_assoc]
      rfl

/-- A token that was read is the first piece, and reading goes on behind it. -/
theorem pieces_token (offset : Nat) (hne : cs ≠ [])
    (h : scan (cs ++ rest) = .token t cs.length) :
    pieces offset 0 (cs ++ rest) = ⟨.ok t, .between offset (offset + byteSize cs)⟩ ::
      pieces (offset + byteSize cs) 0 rest := by
  cases cs with
  | nil => contradiction
  | cons c cs =>
    have hskip := pieces_skip (offset + c.utf8Size) cs.length (cs ++ rest)
    rw [List.take_left, List.drop_left, Nat.add_assoc] at hskip
    have htake : (c :: (cs ++ rest)).take (c :: cs).length = c :: cs := List.take_left
    rw [List.cons_append] at h ⊢
    rw [pieces, h]
    dsimp only
    rw [htake]
    exact congrArg _ hskip

theorem spells_nil : Spells [] [] :=
  fun _ => ⟨[], rfl, rfl⟩

theorem Spells.token (hne : cs ≠ []) (h : scan (cs ++ rest) = .token t cs.length)
    (hrest : Spells rest tokens) :
    Spells (cs ++ rest) ([t].filter (!·.isTrivia) ++ tokens) := by
  intro offset
  have hpieces := pieces_token offset hne h
  obtain ⟨all, hall, rfl⟩ := hrest (offset + byteSize cs)
  refine ⟨t :: all, ?_, ?_⟩
  · rw [hpieces, List.map_cons, hall, List.map_cons]
  · rw [← List.filter_append, List.singleton_append]

theorem spelling_ne_nil (h : t.isSpellable = true) : t.spelling ≠ [] := by
  cases t with
  | keyword k => cases k <;> simp [spelling, Keyword.text]
  | word name =>
    intro hnil
    rw [spelling] at hnil
    simp [isSpellable, isIdentifier, hnil] at h
  | quoted value => simp [spelling]
  | integer value => exact Nat.toDigits_ne_nil
  | symbol s => cases s <;> simp [spelling, Symbol.text]
  | _ => cases h

theorem isTrivia_of_isSpellable (h : t.isSpellable = true) : t.isTrivia = false := by
  cases t <;> simp_all [isSpellable, isTrivia]

/-- A token that is written out is read first. -/
theorem Spells.spelling (ht : t.isSpellable = true) (hend : t.endsBefore rest = true)
    (hrest : Spells rest tokens) : Spells (t.spelling ++ rest) (t :: tokens) := by
  have := Spells.token (spelling_ne_nil ht) (scan_spelling ht hend) hrest
  simpa [isTrivia_of_isSpellable ht] using this

theorem Spells.newline (hrest : Spells rest tokens) : Spells ('\n' :: rest) tokens := by
  have hscan : scan (['\n'] ++ rest) = .token .newline 1 := rfl
  exact Spells.token (List.cons_ne_nil _ _) hscan hrest

theorem Spells.space (hblank : rest.head?.all (!Text.isBlank ·) = true)
    (hrest : Spells rest tokens) : Spells (' ' :: rest) tokens := by
  have hscan : scan ([' '] ++ rest) = .token .blank 1 := by
    have hrun : ([' '] ++ rest).takeWhile (fun c => Text.isBlank c && c != '\n') = [' '] := by
      apply takeWhile_run (by decide)
      cases rest with
      | nil => rfl
      | cons c rest =>
        have hc : Text.isBlank c = false := by simpa using hblank
        simp [hc]
    have hspace : scanBlank ([' '] ++ rest) = some (.token .blank 1) := by
      unfold scanBlank
      split
      · rename_i heq
        cases heq
      · rw [hrun]
        rfl
    unfold scan
    rw [hspace]
    rfl
  exact Spells.token (List.cons_ne_nil _ _) hscan hrest

theorem faultsOf_eq_nil {found : List (Located Span (Except LexicalFault Token))}
    {all : List Token} (h : found.map (·.val) = all.map .ok) : faultsOf found = [] := by
  rw [faultsOf, List.filterMap_eq_nil_iff]
  intro p hp
  have hval : p.val ∈ all.map Except.ok := by
    rw [← h]
    exact List.mem_map_of_mem hp
  obtain ⟨t, _, ht⟩ := List.mem_map.mp hval
  rw [← ht]

theorem map_val_tokensOf {found : List (Located Span (Except LexicalFault Token))}
    {all : List Token} (h : found.map (·.val) = all.map .ok) :
    (tokensOf found).map (·.val) = all := by
  induction found generalizing all with
  | nil => simpa [tokensOf] using h
  | cons p found ih =>
    cases all with
    | nil => cases h
    | cons t all =>
      rw [List.map_cons, List.map_cons, List.cons.injEq] at h
      have hrest := ih h.2
      unfold tokensOf at hrest ⊢
      simp [h.1, hrest]

/-- A text that spells tokens is split into them. -/
theorem tokenize_of_spells {text : String} (h : Spells text.toList tokens) :
    (tokenize text).map significant = .ok tokens := by
  obtain ⟨all, hall, rfl⟩ := h 0
  have hok : tokenize text = .ok (tokensOf (pieces 0 0 text.toList)) := by
    simp [tokenize, faultsOf_eq_nil hall]
  have hsignificant : significant (tokensOf (pieces 0 0 text.toList)) =
      all.filter (!·.isTrivia) := by
    rw [← map_val_tokensOf hall, List.filter_map]
    rfl
  rw [hok, ← hsignificant]
  rfl

end Spells

/-! ### Layout -/

/-- Nothing stands between the token and what follows it. -/
def opens : Token → Bool
  | symbol s => [Symbol.dot, .atSign, .hash, .minus, .caret, .leftParen, .leftBracket,
      .less].contains s
  | _ => false

/-- Nothing stands between the token and what is before it. -/
def closes : Token → Bool
  | symbol s => [Symbol.dot, .comma, .semicolon, .question, .bang, .star, .colon, .less, .greater,
      .leftParen, .rightParen, .rightBracket].contains s
  | _ => false

/-- Together the tokens would be read as something else. -/
def merges : Token → Token → Bool
  | symbol .minus, symbol .greater => true
  | integer _, symbol .dot => true
  | _, _ => false

/-- What stands between two tokens. -/
def gap (t u : Token) : List Char :=
  if (t.opens || u.closes) && !t.merges u then [] else [' ']

/-- The tokens on one line. -/
def layout : List Token → List Char
  | [] => []
  | [t] => t.spelling
  | t :: u :: tokens => t.spelling ++ (t.gap u ++ layout (u :: tokens))

/-- The lines of a text, each with the tokens on it. -/
def layoutLines (lines : List (List Token)) : List Char :=
  lines.flatMap fun line => layout line ++ ['\n']

/-- Characters of words are in the ASCII range. -/
theorem toNat_of_isWordChar {c : Char} (h : isWordChar c = true) :
    36 ≤ c.toNat ∧ c.toNat ≤ 122 := by
  delta isWordChar Char.isAlphanum Char.isAlpha Char.isUpper Char.isLower Char.isDigit at h
  simp only [Bool.or_eq_true, Bool.and_eq_true, decide_eq_true_eq, beq_iff_eq, ge_iff_le,
    UInt32.le_iff_toNat_le] at h
  rcases h with (((h | h) | h) | rfl) | rfl
  · simp at h
    omega
  · simp at h
    omega
  · simp at h
    omega
  · decide
  · decide

/-- What is checked of all word characters one by one. -/
theorem of_isWordChar {p : Char → Bool}
    (hall : ∀ n < 123, isWordChar (Char.ofNat n) = true → p (Char.ofNat n) = true) {c : Char}
    (h : isWordChar c = true) : p c = true := by
  have hc := hall c.toNat (Nat.lt_succ_of_le (toNat_of_isWordChar h).2)
  rw [Char.ofNat_toNat] at hc
  exact hc h

theorem isBlank_of_isWordChar {c : Char} (h : isWordChar c = true) : Text.isBlank c = false := by
  have hrange := toNat_of_isWordChar h
  simp only [Text.isBlank, Bool.or_eq_false_iff, Bool.and_eq_false_iff, decide_eq_false_iff_not,
    beq_eq_false_iff_ne]
  omega

theorem isWordChar_of_isBlank {c : Char} (h : Text.isBlank c = true) : isWordChar c = false := by
  refine Bool.eq_false_iff.mpr ?_
  intro hc
  rw [isBlank_of_isWordChar hc] at h
  cases h

/-- A spelling starts with no blank, and with `>` only if it is that sign. -/
theorem head_spelling {u : Token} (hu : u.isSpellable = true) :
    ∃ c cs, u.spelling = c :: cs ∧ Text.isBlank c = false ∧
      (c = '>' → u = .symbol .greater) := by
  have hword (c : Char) (hc : isWordChar c = true) :
      Text.isBlank c = false ∧ (c = '>' → u = .symbol .greater) :=
    ⟨isBlank_of_isWordChar hc, fun heq => absurd heq (ne_of_isWordChar hc (by decide))⟩
  cases u with
  | keyword k => cases k <;> exact ⟨_, _, rfl, hword _ (by decide)⟩
  | word name =>
    simp only [isSpellable, isIdentifier, Bool.and_eq_true] at hu
    obtain ⟨⟨⟨hall, hhead⟩, _⟩, _⟩ := hu
    cases hchars : name.toList with
    | nil => simp [hchars] at hhead
    | cons c cs =>
      rw [hchars, List.all_cons, Bool.and_eq_true] at hall
      exact ⟨c, cs, hchars, hword c hall.1⟩
  | quoted value => exact ⟨'"', _, rfl, by decide, fun h => absurd h (by decide)⟩
  | integer value =>
    cases hchars : Nat.toDigits 10 value with
    | nil => exact absurd hchars Nat.toDigits_ne_nil
    | cons c cs =>
      have hc : c.isDigit = true :=
        Nat.isDigit_of_mem_toDigits (by decide) (by decide) (hchars ▸ List.mem_cons_self)
      exact ⟨c, cs, hchars, hword c (isWordChar_of_isDigit hc)⟩
  | symbol s =>
    cases s with
    | greater => exact ⟨_, _, rfl, by decide, fun _ => rfl⟩
    | _ => exact ⟨_, _, rfl, by decide, fun h => absurd h (by decide)⟩
  | _ => cases hu

theorem head_text (s : Symbol) :
    ∃ c cs, s.text.toList = c :: cs ∧ isWordChar c = false ∧ (c = '.' → s = .dot) := by
  cases s <;> exact ⟨_, _, rfl, by decide, by decide⟩

/-- What stands between two tokens keeps the first from being read as more. -/
theorem endsBefore_gap {t u : Token} (hu : u.isSpellable = true) (more : List Char) :
    t.endsBefore (t.gap u ++ (u.spelling ++ more)) = true := by
  unfold gap
  split
  case isFalse =>
    unfold endsBefore
    split <;> rfl
  case isTrue hglued =>
    rw [Bool.and_eq_true, Bool.or_eq_true, Bool.not_eq_true'] at hglued
    obtain ⟨hglued, hmerges⟩ := hglued
    obtain ⟨c, cs, hspelling, _, hgreater⟩ := head_spelling hu
    -- A minus sign asks for no more than this, whatever keeps the two together.
    have hminus : t = .symbol .minus → c ≠ '>' := by
      rintro rfl hc
      rw [hgreater hc] at hmerges
      cases hmerges
    have hother (s : Symbol) (hs : t = .symbol s) :
        t.endsBefore ([] ++ (u.spelling ++ more)) = true := by
      subst hs
      cases s with
      | minus => simp [endsBefore, hspelling, hminus rfl]
      | _ => rfl
    obtain hopens | hcloses := hglued
    · cases t with
      | symbol s => exact hother s rfl
      | _ => cases hopens
    · cases u with
      | symbol s =>
        obtain ⟨d, ds, htext, hd, hdot⟩ := head_text s
        rw [spelling] at hspelling
        obtain ⟨rfl, rfl⟩ := List.cons.inj (htext.symm.trans hspelling)
        cases t with
        | symbol s' => exact hother s' rfl
        | keyword k => simp [endsBefore, spelling, htext, hd]
        | word name => simp [endsBefore, spelling, htext, hd]
        | integer value =>
          have hc : d ≠ '.' := by
            intro hc
            rw [hdot hc] at hmerges
            cases hmerges
          simp [endsBefore, spelling, htext, hd, hc]
        | _ => rfl
      | _ => cases hcloses

theorem spells_layout {rest : List Char} {after : List Token} (line : List Token)
    (hline : ∀ t ∈ line, t.isSpellable = true) (hend : ∀ t : Token, t.endsBefore rest = true)
    (hrest : Spells rest after) : Spells (layout line ++ rest) (line ++ after) := by
  induction line with
  | nil => exact hrest
  | cons t tokens ih =>
    have ht := hline t List.mem_cons_self
    cases tokens with
    | nil => exact hrest.spelling ht (hend t)
    | cons u tokens =>
      have hu := hline u (List.mem_cons_of_mem t List.mem_cons_self)
      have hmore := ih fun v hv => hline v (List.mem_cons_of_mem t hv)
      obtain ⟨more, hu_first⟩ : ∃ more, layout (u :: tokens) = u.spelling ++ more := by
        cases tokens with
        | nil => exact ⟨[], by simp [layout]⟩
        | cons v tokens => exact ⟨_, rfl⟩
      have hlayout : layout (t :: u :: tokens) ++ rest =
          t.spelling ++ (t.gap u ++ (u.spelling ++ (more ++ rest))) := by
        simp [layout, hu_first]
      rw [hu_first, List.append_assoc] at hmore
      rw [hlayout, List.cons_append]
      refine Spells.spelling ht (endsBefore_gap hu _) ?_
      obtain ⟨c, cs, hspelling, hblank, _⟩ := head_spelling hu
      unfold gap
      split
      · exact hmore
      · exact hmore.space (by simp [hspelling, hblank])

theorem endsBefore_newline (t : Token) (rest : List Char) : t.endsBefore ('\n' :: rest) = true := by
  unfold endsBefore
  split <;> rfl

/-- **Lines of tokens are read as these tokens.** -/
theorem spells_layoutLines (lines : List (List Token))
    (h : ∀ line ∈ lines, ∀ t ∈ line, t.isSpellable = true) :
    Spells (layoutLines lines) lines.flatten := by
  induction lines with
  | nil => exact spells_nil
  | cons line lines ih =>
    have hlines := ih fun l hl => h l (List.mem_cons_of_mem line hl)
    rw [layoutLines, List.flatMap_cons, List.append_assoc, List.flatten_cons]
    exact spells_layout line (h line List.mem_cons_self) (endsBefore_newline · _) hlines.newline

end Token

end Projection
