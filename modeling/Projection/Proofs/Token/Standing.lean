import Mathlib.Data.List.TakeWhile
import Projection.Proofs.Success
import Projection.Proofs.Token.Places
import Projection.Proofs.Token.Spelling

/-!
# Tokens on their own

A token that is scanned stands on its own: what it takes of the text is read as this token without
the rest as well, and before any other rest that does not go on with it
(`Token.exists_stands_of_scan`). Each kind of token has a lemma of its own for this, since each has
its own way to end: a comment at its line end or its end mark, a quoted text at the first quote that
no backslash takes, a number or a word at the first character that does not go on with it.
-/

namespace Projection

namespace Token

/-- The token is shown in a message as it is written. -/
def isVerbatim : Token → Bool
  | keyword _ | word _ | symbol _ | lineComment _ | blockComment _ | newline => true
  | quoted _ | integer _ | decimal _ | blank => false

/-- The characters are read as this token and nothing else. -/
structure Stands (piece : List Char) (t : Token) : Prop where
  nonempty : piece ≠ []
  scanned : scan piece = .token t piece.length
  verbatim : t.isVerbatim = true → t.text = String.ofList piece

/-- What follows does not go on with the token. -/
def EndsAt (t : Token) (rest : List Char) : Prop :=
  match t with
  | keyword _ | word _ | decimal _ => rest.head?.any isWordChar = false
  | integer _ => rest.head?.any isWordChar = false ∧ fractionDigits rest = []
  | symbol .minus => rest.head? ≠ some '>'
  | lineComment _ => rest.head?.all (fun c => !(c != '\n')) = true
  | blank => rest.head?.all (fun c => !(Text.isBlank c && c != '\n')) = true
  | quoted _ | symbol _ | blockComment _ | newline => True

theorem endsAt_nil (t : Token) : EndsAt t [] := by
  unfold EndsAt
  split <;> simp [fractionDigits]

/-- The character is a symbol, whatever stands before it and behind it. -/
def isSign (c : Char) : Bool :=
  (Symbol.ofChar? c).any fun s => s != .dot && s != .minus

theorem isSign_iff {c : Char} :
    isSign c = true ↔ ∃ s, Symbol.ofChar? c = some s ∧ s ≠ .dot ∧ s ≠ .minus := by
  simp [isSign, Option.any_eq_true]

theorem isWordChar_of_isSign {c : Char} (h : isSign c = true) : isWordChar c = false := by
  obtain ⟨s, hs, _⟩ := isSign_iff.mp h
  unfold Symbol.ofChar? at hs
  split at hs <;> first | decide | cases hs

theorem isDigit_of_isSign {c : Char} (h : isSign c = true) : c.isDigit = false :=
  isDigit_eq_false (isWordChar_of_isSign h)

/-- What follows a symbol goes on with it only if it is a minus. -/
theorem endsAt_symbol {s : Symbol} (hs : s ≠ .minus) (rest : List Char) :
    EndsAt (.symbol s) rest := by
  cases s with
  | minus => exact absurd rfl hs
  | _ => trivial

/-- The characters are read as this token wherever it ends behind them. Behind a sign it ends
everywhere, but for a line comment. -/
structure StandsBefore (piece : List Char) (t : Token) : Prop where
  scanned : ∀ rest, EndsAt t rest → scan (piece ++ rest) = .token t piece.length
  blank : t = .blank → piece.all Text.isBlank = true
  sign : piece.getLast?.any isSign = true → (∃ body, t = .lineComment body) ∨ ∀ rest, EndsAt t rest

/-- A token was found that stands on its own at the head of the text. -/
def StandsFirst (cs : List Char) (t : Token) (size : Nat) : Prop :=
  ∃ piece rest, cs = piece ++ rest ∧ piece.length = size ∧ Stands piece t ∧ EndsAt t rest ∧
    StandsBefore piece t

section Scans

variable {cs piece : List Char} {t : Token} {size : Nat} {s : Scan}

theorem StandsFirst.of_append {rest : List Char} (hrest : EndsAt t rest) (hne : piece ≠ [])
    (hscan : ∀ rest, EndsAt t rest → scan (piece ++ rest) = .token t piece.length)
    (hverbatim : t.isVerbatim = true → t.text = String.ofList piece)
    (hblank : t = .blank → piece.all Text.isBlank = true)
    (hsign : piece.getLast?.any isSign = true →
      (∃ body, t = .lineComment body) ∨ ∀ rest, EndsAt t rest) :
    StandsFirst (piece ++ rest) t piece.length := by
  have hhere := hscan [] (endsAt_nil t)
  rw [List.append_nil] at hhere
  exact ⟨piece, rest, rfl, rfl, ⟨hne, hhere, hverbatim⟩, hrest, hscan, hblank, hsign⟩

/-- Characters of one kind do not end in a sign, if no sign is of this kind. -/
theorem not_sign_of_all {p : Char → Bool} (h : piece.all p = true)
    (hp : ∀ c, isSign c = true → p c = false) : ¬piece.getLast?.any isSign = true := by
  intro hsign
  rw [Option.any_eq_true] at hsign
  obtain ⟨c, hc, hcsign⟩ := hsign
  have hpc := List.all_eq_true.mp h c (List.mem_of_getLast? hc)
  rw [hp c hcsign] at hpc
  cases hpc

theorem head?_dropWhile {p : Char → Bool} (cs : List Char) :
    (cs.dropWhile p).head?.all (!p ·) = true := by
  induction cs with
  | nil => rfl
  | cons c cs ih =>
    rw [List.dropWhile_cons]
    split
    · exact ih
    · rename_i hc
      simpa using hc

/-- The characters up to the end mark have no end mark among them. -/
theorem untilClose_eq_some {body : List Char} (h : untilClose cs = some body) :
    (∃ rest, cs = body ++ '*' :: '/' :: rest) ∧
      ∀ rest, untilClose (body ++ '*' :: '/' :: rest) = some body := by
  fun_induction untilClose cs generalizing body with
  | case1 => cases h
  | case2 rest =>
    cases h
    exact ⟨⟨rest, rfl⟩, fun _ => rfl⟩
  | case3 c cs hopen ih =>
    obtain ⟨inner, hinner, rfl⟩ := Option.map_eq_some_iff.mp h
    obtain ⟨⟨rest, rfl⟩, hagain⟩ := ih hinner
    refine ⟨⟨rest, rfl⟩, fun rest' => ?_⟩
    rw [List.cons_append, untilClose, hagain]
    · rfl
    · -- the two characters at the head are the same before the other rest
      intro after hc hafter
      cases inner with
      | nil => cases hafter
      | cons d inner =>
        obtain ⟨rfl, _⟩ := List.cons.inj hafter
        exact hopen _ hc rfl

theorem scan_of_scanComment (h : scanComment cs = some s) : scan cs = s := by
  rw [scan, h]
  rfl

theorem standsFirst_of_scanComment (h : scanComment cs = some (.token t size)) :
    StandsFirst cs t size := by
  unfold scanComment at h
  split at h
  · rename_i rest
    cases h
    -- the line end itself is left to the next token
    set body := rest.takeWhile (· != '\n') with hbody
    have hscan : ∀ rest', EndsAt (.lineComment (String.ofList body)) rest' →
        scan ('/' :: '/' :: body ++ rest') =
          .token (.lineComment (String.ofList body)) ('/' :: '/' :: body).length := by
      intro rest' hrest'
      have hrun : (body ++ rest').takeWhile (· != '\n') = body :=
        takeWhile_run List.all_takeWhile hrest'
      refine scan_of_scanComment ?_
      rw [List.cons_append, List.cons_append, scanComment, hrun]
      rfl
    have hends : EndsAt (.lineComment (String.ofList body)) (rest.dropWhile (· != '\n')) :=
      head?_dropWhile rest
    have hsplit := StandsFirst.of_append hends (List.cons_ne_nil _ _) hscan
      (fun _ => String.toList_injective (by simp [text])) nofun fun _ => .inl ⟨_, rfl⟩
    rwa [List.cons_append, List.cons_append, List.takeWhile_append_dropWhile] at hsplit
  · rename_i rest
    split at h
    · rename_i body hbody
      cases h
      obtain ⟨⟨after, rfl⟩, hagain⟩ := untilClose_eq_some hbody
      have hscan : ∀ rest', EndsAt (.blockComment (String.ofList body)) rest' →
          scan ('/' :: '*' :: (body ++ ['*', '/']) ++ rest') =
            .token (.blockComment (String.ofList body))
              ('/' :: '*' :: (body ++ ['*', '/'])).length := by
        intro rest' _
        refine scan_of_scanComment ?_
        simp [scanComment, hagain]
      have hends : EndsAt (.blockComment (String.ofList body)) after := trivial
      have hsplit := StandsFirst.of_append hends (List.cons_ne_nil _ _) hscan
        (fun _ => String.toList_injective (by simp [text])) nofun fun _ => .inr fun _ => trivial
      simpa using hsplit
    · cases h
  · cases h

/-- The digits of a code point end at its brace. -/
theorem takeWhile_take_six {digits : List Char} (hlength : digits.length ≤ 6)
    (hdigits : digits.all (fun c => (hexDigit? c).isSome) = true) (rest : List Char) :
    ((digits ++ '\x7d' :: rest).take 6).takeWhile (fun c => (hexDigit? c).isSome) = digits := by
  rw [List.take_append, List.take_of_length_le hlength]
  refine takeWhile_run hdigits ?_
  cases 6 - digits.length with
  | zero => rfl
  | succ n => rfl

/-- An escape does not depend on what follows it. -/
theorem escape_eq_some {c : Char} {n : Nat} (h : escape cs = some (c, n)) :
    ∃ taken rest, cs = taken ++ rest ∧ taken.length = n ∧
      ∀ rest', escape (taken ++ rest') = some (c, n) := by
  unfold escape at h
  split at h
  case h_9 => cases h
  case h_1 rest =>
    set digits := (rest.take 6).takeWhile (fun c => (hexDigit? c).isSome) with hdigits
    dsimp only at h
    split at h
    case isFalse => cases h
    case isTrue hcode =>
      cases h
      obtain ⟨hne, hbrace, hvalid⟩ := hcode
      have hlead : digits <+: rest := (List.takeWhile_prefix _).trans (List.take_prefix 6 rest)
      have hlength : digits.length ≤ 6 :=
        (List.takeWhile_prefix _).length_le.trans (List.length_take_le 6 rest)
      have hhex : digits.all (fun c => (hexDigit? c).isSome) = true := List.all_takeWhile
      clear_value digits
      obtain ⟨after, rfl⟩ := hlead
      rw [List.drop_left] at hbrace
      obtain ⟨after, rfl⟩ := List.head?_eq_some_iff.mp hbrace
      refine ⟨'u' :: '\x7b' :: (digits ++ ['\x7d']), after, by simp, by simp, fun rest' => ?_⟩
      have hagain := takeWhile_take_six hlength hhex rest'
      simp [escape, hagain, hne, hvalid]
  all_goals
    cases h
    exact ⟨[_], _, rfl, rfl, fun _ => rfl⟩

theorem scanInside_escape {c : Char} {n : Nat} (h : escape cs = some (c, n)) :
    scanInside 0 ('\\' :: cs) = ⟨c :: (scanInside n cs).value, (scanInside n cs).size + 1,
      (scanInside n cs).ending⟩ := by
  simp [scanInside, h]

/-- The character stands for itself in a quoted text. -/
def isPlain (c : Char) : Bool :=
  c != '"' && c != '\n' && c != '\r' && c != '\\'

theorem scanInside_plain {c : Char} (h : isPlain c = true) :
    scanInside 0 (c :: cs) = ⟨c :: (scanInside 0 cs).value, (scanInside 0 cs).size + 1,
      (scanInside 0 cs).ending⟩ := by
  simp only [isPlain, Bool.and_eq_true, bne_iff_ne] at h
  simp [scanInside, h]

/-- How a quoted text goes on that is closed. -/
theorem scanInside_cases {c : Char} (h : (scanInside 0 (c :: cs)).ending = .closed) :
    c = '"' ∨ isPlain c = true ∨ c = '\\' ∧ ∃ x n, escape cs = some (x, n) := by
  by_cases hplain : isPlain c = true
  · exact .inr (.inl hplain)
  · simp only [scanInside] at h
    split at h
    · rename_i hquote
      exact .inl (eq_of_beq hquote)
    · rename_i hquote
      split at h
      · cases h
      · rename_i hend
        have hbackslash : c = '\\' := by simp_all [isPlain]
        rw [if_pos (beq_iff_eq.mpr hbackslash)] at h
        split at h
        · cases h
        · rename_i x n hescape
          exact .inr (.inr ⟨hbackslash, x, n, hescape⟩)

/-- A quoted text that is closed does not depend on what follows its quote. -/
theorem scanInside_of_closed {skip : Nat} (h : (scanInside skip cs).ending = .closed) :
    ∃ inner rest, cs = inner ++ '"' :: rest ∧ skip ≤ inner.length ∧
      inner.length = (scanInside skip cs).size ∧
      ∀ rest', scanInside skip (inner ++ '"' :: rest') = scanInside skip cs := by
  induction cs generalizing skip with
  | nil => cases h
  | cons c cs ih =>
    cases skip with
    | succ skip =>
      obtain ⟨inner, rest, rfl, hskip, hsize, hagain⟩ := ih h
      refine ⟨c :: inner, rest, rfl, Nat.succ_le_succ hskip, congrArg (· + 1) hsize, ?_⟩
      intro rest'
      rw [List.cons_append, scanInside, scanInside, hagain]
    | zero =>
      rcases scanInside_cases h with rfl | hplain | ⟨rfl, x, n, hescape⟩
      · exact ⟨[], cs, rfl, Nat.le_refl 0, rfl, fun _ => rfl⟩
      · rw [scanInside_plain hplain] at h
        obtain ⟨inner, rest, rfl, _, hsize, hagain⟩ := ih h
        refine ⟨c :: inner, rest, rfl, Nat.zero_le _, ?_, fun rest' => ?_⟩
        · rw [scanInside_plain hplain, List.length_cons, hsize]
        · rw [List.cons_append, scanInside_plain hplain, scanInside_plain hplain, hagain]
      · rw [scanInside_escape hescape] at h
        obtain ⟨inner, rest, rfl, hskip, hsize, hagain⟩ := ih h
        obtain ⟨taken, more, hmore, rfl, hescape'⟩ := escape_eq_some hescape
        -- The escape ends before the quote, so it is read in front of any rest.
        obtain ⟨later, rfl⟩ : taken <+: inner :=
          List.prefix_of_prefix_length_le ⟨more, hmore.symm⟩ ⟨_, rfl⟩ hskip
        refine ⟨'\\' :: (taken ++ later), rest, rfl, Nat.zero_le _, ?_, fun rest' => ?_⟩
        · rw [scanInside_escape hescape, List.length_cons, hsize]
        · have hescape'' : escape (taken ++ later ++ '"' :: rest') = some (x, taken.length) := by
            rw [List.append_assoc]
            exact hescape' _
          rw [List.cons_append, scanInside_escape hescape, scanInside_escape hescape'', hagain]

theorem standsFirst_of_scanQuoted (h : scanQuoted cs = some (.token t size)) :
    StandsFirst cs t size := by
  unfold scanQuoted at h
  split at h
  · rename_i rest
    dsimp only at h
    split at h
    · rename_i hclosed
      cases h
      obtain ⟨inner, after, rfl, _, hsize, hagain⟩ := scanInside_of_closed hclosed
      set value := (scanInside 0 (inner ++ '"' :: after)).value
      have hscan : ∀ rest', EndsAt (.quoted (String.ofList value)) rest' →
          scan ('"' :: (inner ++ ['"']) ++ rest') =
            .token (.quoted (String.ofList value)) ('"' :: (inner ++ ['"'])).length := by
        intro rest' _
        rw [List.cons_append, List.append_assoc, List.singleton_append, scan,
          scanComment_eq_none (by decide), scanQuoted, hagain]
        simp [hclosed, hsize, value]
      have hends : EndsAt (.quoted (String.ofList value)) after := trivial
      have hsplit := StandsFirst.of_append hends (List.cons_ne_nil _ _) hscan
        (fun hverbatim => by cases hverbatim) (fun hblank => by cases hblank)
        fun _ => .inr fun _ => trivial
      simpa [hsize] using hsplit
    · cases h
    · cases h
  · cases h

/-- Digits with a point between them. -/
theorem scanNumber_fraction {whole fraction rest : List Char} (hne : whole ≠ [])
    (hwhole : whole.all Char.isDigit = true) (hne' : fraction ≠ [])
    (hfraction : fraction.all Char.isDigit = true) (hrest : rest.head?.any isWordChar = false) :
    scanNumber (whole ++ '.' :: (fraction ++ rest)) = some (.token
      (.decimal (Binary64.ofDecimal whole fraction)) (whole.length + 1 + fraction.length)) := by
  have htake : (whole ++ '.' :: (fraction ++ rest)).takeWhile Char.isDigit = whole :=
    takeWhile_run hwhole rfl
  have hdrop : (whole ++ '.' :: (fraction ++ rest)).dropWhile Char.isDigit =
      '.' :: (fraction ++ rest) :=
    dropWhile_run hwhole rfl
  have hagain := takeWhile_run hfraction (head?_not_isDigit hrest)
  simp [scanNumber, htake, hdrop, fractionDigits, hagain, hne, hne', hrest]

theorem all_fractionDigits (cs : List Char) : (fractionDigits cs).all Char.isDigit = true := by
  unfold fractionDigits
  split
  · exact List.all_takeWhile
  · rfl

theorem exists_fractionDigits (h : fractionDigits cs ≠ []) :
    ∃ rest, cs = '.' :: (fractionDigits cs ++ rest) := by
  unfold fractionDigits at h ⊢
  split at h
  · rename_i digits
    exact ⟨digits.dropWhile Char.isDigit, congrArg _ List.takeWhile_append_dropWhile.symm⟩
  · exact absurd rfl h

theorem standsFirst_integer {whole rest : List Char} (hne : whole ≠ [])
    (hwhole : whole.all Char.isDigit = true)
    (hvalue : Binary64.digitsValue whole < Nat.pow 2 63)
    (hrest : EndsAt (.integer (Binary64.digitsValue whole)) rest) :
    StandsFirst (whole ++ rest) (.integer (Binary64.digitsValue whole)) whole.length := by
  have hdigits := not_sign_of_all hwhole fun _ => isDigit_of_isSign
  refine .of_append hrest hne (fun rest' hrest' => ?_) nofun nofun fun h => absurd h hdigits
  have hscan := scanNumber_whole hne hwhole hrest'.1 hrest'.2
  rw [if_pos hvalue] at hscan
  exact scan_of_scanNumber hne hwhole hscan

theorem standsFirst_decimal {whole fraction rest : List Char} (hne : whole ≠ [])
    (hwhole : whole.all Char.isDigit = true) (hne' : fraction ≠ [])
    (hfraction : fraction.all Char.isDigit = true) (hrest : rest.head?.any isWordChar = false) :
    StandsFirst (whole ++ '.' :: (fraction ++ rest))
      (.decimal (Binary64.ofDecimal whole fraction)) (whole.length + 1 + fraction.length) := by
  have hlength : (whole ++ '.' :: fraction).length = whole.length + 1 + fraction.length := by
    rw [List.length_append, List.length_cons]
    omega
  have hdigits : ¬(whole ++ '.' :: fraction).getLast?.any isSign = true := by
    rw [List.getLast?_append_of_ne_nil _ (List.cons_ne_nil _ _),
      List.getLast?_cons_of_ne_nil hne']
    exact not_sign_of_all hfraction fun _ => isDigit_of_isSign
  have hends : EndsAt (.decimal (Binary64.ofDecimal whole fraction)) rest := hrest
  have hsplit := StandsFirst.of_append hends (List.append_ne_nil_of_left_ne_nil hne _)
    (fun rest' hrest' => ?_) nofun nofun fun h => absurd h hdigits
  · rwa [List.append_assoc, List.cons_append, hlength] at hsplit
  · have hscan := scanNumber_fraction hne hwhole hne' hfraction hrest'
    rw [List.append_assoc, List.cons_append, scan_of_scanNumber hne hwhole hscan, hlength]

theorem standsFirst_of_scanNumber (h : scanNumber cs = some (.token t size)) :
    StandsFirst cs t size := by
  unfold scanNumber at h
  extract_lets whole rest fraction after value at h
  have hcs : whole ++ rest = cs := List.takeWhile_append_dropWhile
  have hwhole : whole.all Char.isDigit = true := List.all_takeWhile
  split at h
  · cases h
  · rename_i hnumber
    have hne : whole ≠ [] := by
      intro hnil
      simp [hnil] at hnumber
    rw [Bool.not_eq_true, Bool.or_eq_false_iff] at hnumber
    rw [← hcs]
    split at h
    · -- no digit behind the point: the point belongs to the next token
      rename_i hempty
      split at h
      · rename_i hvalue
        cases h
        refine standsFirst_integer hne hwhole hvalue ⟨?_, List.isEmpty_iff.mp hempty⟩
        simpa [after, hempty] using hnumber.2
      · cases h
    · rename_i hempty
      cases h
      have hne' : fraction ≠ [] := by simpa using hempty
      obtain ⟨more, hrest⟩ : ∃ more, rest = '.' :: (fraction ++ more) := exists_fractionDigits hne'
      have hends : more.head?.any isWordChar = false := by
        simpa [after, hempty, hrest] using hnumber.2
      rw [hrest]
      exact standsFirst_decimal hne hwhole hne' (all_fractionDigits rest) hends

theorem endsAt_run {name : String} {rest : List Char} :
    EndsAt (if name == Keyword.exportWord.text then .keyword .exportWord
      else if name == Keyword.asWord.text then .keyword .asWord else .word name) rest ↔
      rest.head?.any isWordChar = false := by
  split
  · exact Iff.rfl
  · split <;> exact Iff.rfl

/-- A run of word characters is a word or a keyword. -/
theorem standsFirst_run {name : String} {rest : List Char}
    (hall : name.toList.all isWordChar = true)
    (hhead : name.toList.head?.any (!·.isDigit) = true)
    (hrest : rest.head?.any isWordChar = false) :
    StandsFirst (name.toList ++ rest)
      (if name == Keyword.exportWord.text then .keyword .exportWord
        else if name == Keyword.asWord.text then .keyword .asWord else .word name)
      name.toList.length := by
  refine .of_append (endsAt_run.mpr hrest) ?_ (fun rest' hrest' => ?_) (fun _ => ?_) (fun h => ?_)
    fun h => absurd h (not_sign_of_all hall fun _ => isWordChar_of_isSign)
  · intro hnil
    rw [hnil] at hhead
    cases hhead
  · refine scan_run hall hhead ?_
    have hword := endsAt_run.mp hrest'
    cases rest' with
    | nil => rfl
    | cons c rest' => exact congrArg not hword
  · rw [String.ofList_toList]
    split
    · rename_i hexport
      exact (eq_of_beq hexport).symm
    · split
      · rename_i has
        exact (eq_of_beq has).symm
      · rfl
  · split at h
    · cases h
    · split at h <;> cases h

theorem standsFirst_of_scanWord (h : scanWord cs = some (.token t size)) :
    StandsFirst cs t size := by
  simp only [scanWord] at h
  split at h
  · cases h
  · rename_i hword
    cases h
    have hcs : cs.takeWhile isWordChar ++ cs.dropWhile isWordChar = cs :=
      List.takeWhile_append_dropWhile
    have hall : (cs.takeWhile isWordChar).all isWordChar = true := List.all_takeWhile
    have hhead : (cs.takeWhile isWordChar).head?.any (!·.isDigit) = true := by
      cases cs with
      | nil => simp at hword
      | cons c rest => cases hc : isWordChar c <;> simp_all
    have hrest : (cs.dropWhile isWordChar).head?.any isWordChar = false := by
      have hend := head?_dropWhile (p := isWordChar) cs
      cases hdrop : cs.dropWhile isWordChar with
      | nil => rfl
      | cons c rest => simpa [hdrop] using hend
    rw [← String.toList_ofList (l := cs.takeWhile isWordChar)] at hall hhead
    have hsplit := standsFirst_run hall hhead hrest
    rwa [String.toList_ofList, hcs] at hsplit

theorem endsBefore_of_endsAt {s : Symbol} {rest : List Char} (h : EndsAt (.symbol s) rest) :
    (Token.symbol s).endsBefore rest = true := by
  cases s with
  | minus => exact bne_iff_ne.mpr h
  | _ => rfl

theorem toList_text_of_ofChar? {c : Char} {s : Symbol} (h : Symbol.ofChar? c = some s) :
    s.text.toList = [c] := by
  unfold Symbol.ofChar? at h
  split at h <;> cases h <;> rfl

theorem standsFirst_of_scanSymbol (h : scanSymbol cs = some (.token t size)) :
    StandsFirst cs t size := by
  unfold scanSymbol at h
  split at h
  · rename_i rest
    cases h
    have hends : EndsAt (.symbol .arrow) rest := trivial
    exact .of_append hends (List.cons_ne_nil '-' ['>']) (fun _ _ => rfl) (fun _ => rfl) nofun
      fun _ => .inr fun _ => trivial
  · rename_i c rest harrow
    obtain ⟨s, hs, heq⟩ := Option.map_eq_some_iff.mp h
    cases heq
    have htext := toList_text_of_ofChar? hs
    have hends : EndsAt (.symbol s) rest := by
      cases s with
      | minus =>
        obtain rfl : '-' = c := (List.cons.inj htext).1
        intro hgreater
        obtain ⟨more, rfl⟩ := List.head?_eq_some_iff.mp hgreater
        exact harrow more rfl rfl
      | _ => trivial
    have hsign : s.text.toList.getLast?.any isSign = true → s ≠ .minus := by
      intro hlast
      rw [htext] at hlast
      have hc : isSign c = true := hlast
      obtain ⟨s', hs', _, hminus⟩ := isSign_iff.mp hc
      rw [hs] at hs'
      exact Option.some.inj hs' ▸ hminus
    have hsplit := StandsFirst.of_append hends (htext ▸ List.cons_ne_nil c [])
      (fun rest' hrest' => scan_symbol (endsBefore_of_endsAt hrest'))
      (fun _ => String.ofList_toList.symm) nofun fun hc => .inr (endsAt_symbol (hsign hc))
    rwa [htext] at hsplit
  · cases h

theorem isBlank_of_ofChar? {c : Char} {s : Symbol} (h : Symbol.ofChar? c = some s) :
    Text.isBlank c = false := by
  unfold Symbol.ofChar? at h
  split at h <;> cases h <;> decide

theorem isBlank_of_isSign {c : Char} (h : isSign c = true) : Text.isBlank c = false := by
  obtain ⟨s, hs, _⟩ := isSign_iff.mp h
  exact isBlank_of_ofChar? hs

theorem scanWord_of_isBlank {c : Char} (h : Text.isBlank c = true) :
    scanWord (c :: cs) = none := by
  simp [scanWord, isWordChar_of_isBlank h]

theorem scanSymbol_of_isBlank {c : Char} (h : Text.isBlank c = true) :
    scanSymbol (c :: cs) = none := by
  unfold scanSymbol
  split
  · rename_i heq
    rw [(List.cons.inj heq).1] at h
    exact absurd h (by decide)
  · rename_i heq
    obtain ⟨rfl, rfl⟩ := List.cons.inj heq
    refine Option.map_eq_none_iff.mpr (Option.eq_none_iff_forall_ne_some.mpr fun s hs => ?_)
    exact absurd h (by simp [isBlank_of_ofChar? hs])
  · rfl

/-- Blanks other than line ends, up to another character. -/
theorem scan_blanks {run rest : List Char} (hne : run ≠ [])
    (hrun : run.all (fun c => Text.isBlank c && c != '\n') = true)
    (hrest : rest.head?.all (fun c => !(Text.isBlank c && c != '\n')) = true) :
    scan (run ++ rest) = .token .blank run.length := by
  cases run with
  | nil => contradiction
  | cons c run =>
    have hagain := takeWhile_run hrun hrest
    rw [List.all_cons, Bool.and_eq_true, Bool.and_eq_true, bne_iff_ne] at hrun
    obtain ⟨⟨hblank, hnewline⟩, _⟩ := hrun
    have hother (d : Char) (hd : Text.isBlank d = false) : c ≠ d := by
      rintro rfl
      exact absurd hblank (by simp [hd])
    have hdigit : c.isDigit = false := isDigit_eq_false (isWordChar_of_isBlank hblank)
    have hblanks : scanBlank (c :: (run ++ rest)) = some (.token .blank (c :: run).length) := by
      unfold scanBlank
      split
      · rename_i heq
        exact absurd (List.cons.inj heq).1 hnewline
      · rw [← List.cons_append, hagain]
        rfl
    -- no other scanner takes a blank, so the last one is reached
    rw [List.cons_append, scan, scanComment_eq_none (hother '/' (by decide)),
      scanQuoted_eq_none (hother '"' (by decide)), scanNumber_eq_none hdigit,
      scanWord_of_isBlank hblank, scanSymbol_of_isBlank hblank, hblanks]
    rfl

theorem standsFirst_of_scanBlank (h : scanBlank cs = some (.token t size)) :
    StandsFirst cs t size := by
  unfold scanBlank at h
  split at h
  · rename_i rest
    cases h
    have hends : EndsAt .newline rest := trivial
    exact .of_append hends (List.cons_ne_nil '\n' []) (fun _ _ => rfl) (fun _ => rfl) nofun
      fun _ => .inr fun _ => trivial
  · dsimp only at h
    split at h
    · cases h
    · rename_i hempty
      cases h
      have hne : cs.takeWhile (fun c => Text.isBlank c && c != '\n') ≠ [] := by simpa using hempty
      have hends : EndsAt .blank (cs.dropWhile fun c => Text.isBlank c && c != '\n') :=
        head?_dropWhile cs
      have hrun : (cs.takeWhile fun c => Text.isBlank c && c != '\n').all
          (fun c => Text.isBlank c && c != '\n') = true := List.all_takeWhile
      have hblank : (cs.takeWhile fun c => Text.isBlank c && c != '\n').all Text.isBlank = true :=
        List.all_eq_true.mpr fun c hc => (Bool.and_eq_true_iff.mp (List.all_eq_true.mp hrun c hc)).1
      have hsplit := StandsFirst.of_append hends hne
        (fun _ hrest => scan_blanks hne hrun hrest) nofun (fun _ => hblank)
        fun h => absurd h (not_sign_of_all hblank fun _ => isBlank_of_isSign)
      rwa [List.takeWhile_append_dropWhile] at hsplit

/-- **A token that is scanned stands on its own.** -/
theorem exists_stands_of_scan (h : scan cs = .token t size) : StandsFirst cs t size := by
  rw [scan] at h
  cases hfound : scanComment cs <|> scanQuoted cs <|> scanNumber cs <|> scanWord cs <|>
      scanSymbol cs <|> scanBlank cs with
  | none =>
    rw [hfound] at h
    cases h
  | some s =>
    rw [hfound] at h
    obtain rfl : s = .token t size := h
    simp only [Option.orElse_eq_orElse, Option.orElse_eq_or, Option.or_eq_some_iff] at hfound
    rcases hfound with h | ⟨_, h | ⟨_, h | ⟨_, h | ⟨_, h | ⟨_, h⟩⟩⟩⟩⟩
    · exact standsFirst_of_scanComment h
    · exact standsFirst_of_scanQuoted h
    · exact standsFirst_of_scanNumber h
    · exact standsFirst_of_scanWord h
    · exact standsFirst_of_scanSymbol h
    · exact standsFirst_of_scanBlank h

end Scans

end Token

end Projection
