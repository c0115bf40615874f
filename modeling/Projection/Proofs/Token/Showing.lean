import Projection.Proofs.Token.Cutting
import Projection.Value

/-!
# Texts of tokens

A text *shows* a row of tokens if it is read as these before anything that goes on with no word and
no number (`Token.Shows`). Texts that show tokens can be put together: a sign may stand in front of
any of them, and two follow one another if the second starts with a character of its own.

A quoted text shows its value (`Token.shows_quoted`): each character stands for itself or is an
escape, and the escape of a code point has its hexadecimal digits, six at most.
-/

namespace Projection

namespace Token

/-! ### Quoted texts -/

section Quoted

variable {cs rest : List Char}

theorem hexDigit?_digitChar {d : Nat} (h : d < 16) : hexDigit? d.digitChar = some d := by
  revert d
  decide

/-- Digits are read from left to right, and so the last one is split off. -/
theorem hexValue_toDigits (n : Nat) : hexValue (Nat.toDigits 16 n) = n := by
  induction n using Nat.strongRecOn with
  | ind n ih =>
    by_cases hn : n < 16
    · rw [Nat.toDigits_of_lt_base hn]
      simp [hexValue, hexDigit?_digitChar hn]
    · have hlast := hexDigit?_digitChar (Nat.mod_lt n (by decide : 0 < 16))
      have hlead : hexValue (Nat.toDigits 16 (n / 16)) = n / 16 := ih _ (by omega)
      rw [Nat.toDigits_of_base_le (by decide) (by omega), hexValue, List.foldl_append, ← hexValue,
        hlead, List.foldl_cons, List.foldl_nil, hlast, Option.getD_some]
      omega

theorem all_toDigits (n : Nat) :
    (Nat.toDigits 16 n).all (fun c => (hexDigit? c).isSome) = true := by
  induction n using Nat.strongRecOn with
  | ind n ih =>
    by_cases hn : n < 16
    · rw [Nat.toDigits_of_lt_base hn]
      simp [hexDigit?_digitChar hn]
    · have hlast := hexDigit?_digitChar (Nat.mod_lt n (by decide : 0 < 16))
      rw [Nat.toDigits_of_base_le (by decide) (by omega), List.all_append, ih _ (by omega)]
      simp [hlast]

/-- The escape of a character by its code point, without the backslash. -/
def codePoint (c : Char) : List Char :=
  'u' :: '\x7b' :: (Nat.toDigits 16 c.toNat ++ ['\x7d'])

theorem escape_codePoint (c : Char) (rest : List Char) :
    escape (codePoint c ++ rest) = some (c, (codePoint c).length) := by
  have hlength : (Nat.toDigits 16 c.toNat).length ≤ 6 := by
    have hbound : c.toNat < 16777216 := by
      have := c.valid
      rcases this with h | ⟨_, h⟩
      · exact Nat.lt_trans h (by decide)
      · exact Nat.lt_trans h (by decide)
    exact (Nat.length_toDigits_le_iff (by decide) (by decide)).mpr hbound
  have hdigits := takeWhile_take_six hlength (all_toDigits c.toNat) rest
  have hne : Nat.toDigits 16 c.toNat ≠ [] := Nat.toDigits_ne_nil
  have hvalid : c.toNat.isValidChar := c.valid
  simp [codePoint, escape, hdigits, hne, hexValue_toDigits, hvalid]

theorem scanInside_skip (taken cs : List Char) :
    scanInside taken.length (taken ++ cs) = ⟨(scanInside 0 cs).value,
      (scanInside 0 cs).size + taken.length, (scanInside 0 cs).ending⟩ := by
  induction taken with
  | nil => rfl
  | cons c taken ih =>
    rw [List.length_cons, List.cons_append, scanInside, ih]
    rfl

/-- An escape is read as the character it stands for. -/
theorem scanInside_taken {c : Char} {taken : List Char}
    (h : escape (taken ++ cs) = some (c, taken.length)) :
    scanInside 0 ('\\' :: (taken ++ cs)) = ⟨c :: (scanInside 0 cs).value,
      (scanInside 0 cs).size + (taken.length + 1), (scanInside 0 cs).ending⟩ := by
  rw [scanInside_escape h, scanInside_skip, Nat.add_assoc]

theorem scanInside_encodeChar (c : Char) (cs : List Char) :
    scanInside 0 (Text.Quoted.encodeChar c ++ cs) = ⟨c :: (scanInside 0 cs).value,
      (scanInside 0 cs).size + (Text.Quoted.encodeChar c).length, (scanInside 0 cs).ending⟩ := by
  have hletter {d : Char} (hd : escape ([d] ++ cs) = some (c, 1)) :
      scanInside 0 (['\\', d] ++ cs) = ⟨c :: (scanInside 0 cs).value, (scanInside 0 cs).size + 2,
        (scanInside 0 cs).ending⟩ :=
    scanInside_taken hd
  by_cases hquote : c = '"'
  · subst hquote
    exact hletter rfl
  by_cases hbackslash : c = '\\'
  · subst hbackslash
    exact hletter rfl
  by_cases hnewline : c = '\n'
  · subst hnewline
    exact hletter rfl
  by_cases hreturn : c = '\r'
  · subst hreturn
    exact hletter rfl
  by_cases htab : c = '\t'
  · subst htab
    exact hletter rfl
  by_cases hzero : c = '\x00'
  · subst hzero
    exact hletter rfl
  have hnat : c.toNat ≠ 0 := fun h => hzero (Char.toNat_inj.mp h)
  rw [Text.Quoted.encodeChar, if_neg (by simpa using hquote), if_neg (by simpa using hbackslash),
    if_neg (by simpa using hnewline), if_neg (by simpa using hreturn), if_neg (by simpa using htab),
    if_neg (by simpa using hnat)]
  split
  · have hplain : isPlain c = true := by simp [isPlain, hquote, hnewline, hreturn, hbackslash]
    exact scanInside_plain hplain
  · exact scanInside_taken (escape_codePoint c cs)

theorem scanInside_encode (value : List Char) :
    scanInside 0 (Text.Quoted.encode value ++ '"' :: rest) =
      ⟨value, (Text.Quoted.encode value).length, .closed⟩ := by
  induction value with
  | nil => rfl
  | cons c value ih =>
    rw [Text.Quoted.encode, List.flatMap_cons, List.append_assoc, scanInside_encodeChar,
      ← Text.Quoted.encode, ih, List.length_append, Nat.add_comm]

/-- A text between quotes is read as its value, whatever its characters are. -/
theorem scan_textQuoted (value : String) :
    scan ((Text.quoted value).toList ++ rest) =
      .token (.quoted value) (Text.quoted value).toList.length := by
  have hchars : (Text.quoted value).toList ++ rest =
      '"' :: (Text.Quoted.encode value.toList ++ '"' :: rest) := by
    simp [Text.quoted]
  have hquoted : scanQuoted ((Text.quoted value).toList ++ rest) =
      some (.token (.quoted value) (Text.quoted value).toList.length) := by
    rw [hchars, scanQuoted, scanInside_encode]
    simp [Text.quoted, String.ofList_toList]
  unfold scan
  rw [hquoted, hchars, scanComment_eq_none (by decide)]
  rfl

end Quoted

/-! ### Rows of tokens -/

/-- No word and no number goes on with this character. -/
def isApart (c : Char) : Bool :=
  !isWordChar c && c != '.'

/-- The characters are read as these tokens, before anything that goes on with no word and no
number. -/
def Shows (cs : List Char) (tokens : List Token) : Prop :=
  ∀ rest : List Char, rest.head?.all isApart = true →
    digest (cs ++ rest) = tokens.map .ok ++ digest rest

section Shows

variable {t : Token} {cs cs' rest : List Char} {tokens tokens' : List Token}

theorem digest_significant (hne : cs ≠ []) (ht : t.isTrivia = false)
    (h : scan (cs ++ rest) = .token t cs.length) :
    digest (cs ++ rest) = .ok t :: digest rest := by
  rw [digest_token hne h, notable_ok]
  simp [ht]

theorem digest_spelling (ht : t.isSpellable = true) (h : t.endsBefore rest = true) :
    digest (t.spelling ++ rest) = .ok t :: digest rest :=
  digest_significant (spelling_ne_nil ht) (isTrivia_of_isSpellable ht) (scan_spelling ht h)

theorem shows_nil : Shows [] [] :=
  fun _ _ => rfl

theorem shows_spelling (ht : t.isSpellable = true) (hminus : t ≠ .symbol .minus) :
    Shows t.spelling [t] := by
  intro rest hrest
  have hword : rest.head?.all (!isWordChar ·) = true := by
    cases rest with
    | nil => rfl
    | cons c rest => exact (Bool.and_eq_true_iff.mp hrest).1
  refine digest_spelling ht ?_
  cases t with
  | keyword k => exact hword
  | word name => exact hword
  | integer value => exact hrest
  | symbol s =>
    cases s with
    | minus => exact absurd rfl hminus
    | _ => rfl
  | _ => rfl

theorem shows_quoted (value : String) : Shows (Text.quoted value).toList [.quoted value] := by
  intro rest _
  refine digest_significant ?_ rfl (scan_textQuoted value)
  simp [Text.quoted]

theorem Shows.append (h : Shows cs tokens) (h' : Shows cs' tokens')
    (hhead : cs'.head?.all isApart = true) : Shows (cs ++ cs') (tokens ++ tokens') := by
  intro rest hrest
  have hapart : (cs' ++ rest).head?.all isApart = true := by
    cases cs' with
    | nil => exact hrest
    | cons c cs' => exact hhead
  rw [List.append_assoc, h _ hapart, h' _ hrest, List.map_append, List.append_assoc]

/-- Anything may stand behind a sign but a `>` behind a minus. -/
theorem Shows.symbol {s : Symbol} (hs : s ≠ .minus) (h : Shows cs tokens) :
    Shows (s.text.toList ++ cs) (.symbol s :: tokens) := by
  intro rest hrest
  have hends : (Token.symbol s).endsBefore (cs ++ rest) = true := by
    cases s with
    | minus => exact absurd rfl hs
    | _ => rfl
  have hsymbol := digest_spelling (t := .symbol s) rfl hends
  rw [h rest hrest] at hsymbol
  rw [List.append_assoc]
  exact hsymbol

/-- A minus sign before digits. -/
theorem digest_minus (hne : cs ≠ []) (hdigits : cs.all Char.isDigit = true) (rest : List Char) :
    digest ('-' :: (cs ++ rest)) = .ok (.symbol .minus) :: digest (cs ++ rest) := by
  have hends : (Token.symbol .minus).endsBefore (cs ++ rest) = true := by
    obtain ⟨c, cs, rfl⟩ := List.exists_cons_of_ne_nil hne
    rw [List.all_cons, Bool.and_eq_true] at hdigits
    refine bne_iff_ne.mpr fun hc => ?_
    obtain rfl : c = '>' := Option.some.inj hc
    exact absurd hdigits.1 (by decide)
  exact digest_spelling (t := .symbol .minus) rfl hends

theorem Shows.minus (h : Shows cs tokens) (hne : cs ≠ []) (hdigits : cs.all Char.isDigit = true) :
    Shows ('-' :: cs) (.symbol .minus :: tokens) := by
  intro rest hrest
  rw [List.cons_append, digest_minus hne hdigits, h rest hrest]
  rfl

theorem Shows.space (h : Shows cs tokens) : Shows (' ' :: cs) tokens := by
  intro rest hrest
  rw [List.cons_append, digest_blank (by decide), h rest hrest]

theorem isApart_of_isBlank {c : Char} (h : Text.isBlank c = true) : isApart c = true := by
  rw [isApart, Bool.and_eq_true, Bool.not_eq_true', bne_iff_ne]
  constructor
  · exact isWordChar_of_isBlank h
  · rintro rfl
    exact absurd h (by decide)

theorem isApart_of_isSign {c : Char} (h : isSign c = true) : isApart c = true := by
  rw [isApart, Bool.and_eq_true, Bool.not_eq_true', bne_iff_ne]
  constructor
  · exact isWordChar_of_isSign h
  · rintro rfl
    exact absurd h (by decide)

/-- A sign is read on its own. -/
theorem digest_sign {c : Char} (h : isSign c = true) (rest : List Char) :
    ∃ s, digest (c :: rest) = .ok (.symbol s) :: digest rest := by
  obtain ⟨s, hs, _, hminus⟩ := isSign_iff.mp h
  have hends := endsBefore_of_endsAt (endsAt_symbol hminus rest)
  have hsymbol := digest_spelling (t := .symbol s) rfl hends
  rw [spelling, toList_text_of_ofChar? hs] at hsymbol
  exact ⟨s, hsymbol⟩

end Shows

end Token

end Projection
