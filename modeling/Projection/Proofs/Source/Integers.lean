import Projection.Proofs.Source.Replacing
import Projection.Proofs.Token.Showing

/-!
# Integers of a source

An integer is written as a sign or none, and decimal digits (`Numeral`). It stands in the arguments
of annotations and as the default of user-defined properties, and is read there if its magnitude
fits in 63 bits. Any other is refused, with this one fault (`Source.parse_numeral`).

The sign is a token of its own, and the digits have to fit before it is looked at. So the range is
symmetric: the least number of 64 bits with a sign is not in it (`Desk.least_is_refused`).
-/

namespace Projection

/-- A whole number as it is written: digits, maybe with a minus sign before them. -/
structure Numeral where
  negative : Bool
  digits : List Char
  nonempty : digits ≠ []
  decimal : digits.all Char.isDigit = true

namespace Numeral

def text (i : Numeral) : String :=
  (if i.negative then "-" else "") ++ String.ofList i.digits

/-- The number without its sign. -/
def magnitude (i : Numeral) : Nat :=
  Nat.ofDigitChars 10 i.digits 0

def value (i : Numeral) : Int :=
  if i.negative then -i.magnitude else i.magnitude

/-- The numbers of 64 bits with a sign, all but the least. -/
def Fits (i : Numeral) : Prop :=
  -9223372036854775808 < i.value ∧ i.value ≤ 9223372036854775807

def tokens (i : Numeral) : List Token :=
  (if i.negative then [Token.symbol .minus] else []) ++ [.integer i.magnitude]

theorem fits_iff (i : Numeral) : i.Fits ↔ i.magnitude < Nat.pow 2 63 := by
  rw [Fits, value]
  have hpow : Nat.pow 2 63 = 9223372036854775808 := rfl
  rw [hpow]
  split <;> omega

/-! ### Its characters -/

section Scan

variable (i : Numeral) {rest : List Char}

theorem scan_digits (hrest : rest.head?.all Token.isApart = true) :
    Token.scan (i.digits ++ rest) = if i.magnitude < Nat.pow 2 63
      then .token (.integer i.magnitude) i.digits.length
      else .fault .numberOutOfRange 0 i.digits.length := by
  have hword : rest.head?.any Token.isWordChar = false := by
    cases rest with
    | nil => rfl
    | cons c rest =>
      have hc := (Bool.and_eq_true_iff.mp hrest).1
      simpa using hc
  have hfraction : Token.fractionDigits rest = [] := by
    refine Token.fractionDigits_eq_nil ?_
    intro hdot
    rw [hdot] at hrest
    exact absurd hrest (by decide)
  exact Token.scan_of_scanNumber i.nonempty i.decimal
    (Token.scanNumber_whole i.nonempty i.decimal hword hfraction)

/-- A sign does not change how the digits are read. -/
theorem digest_text (rest : List Char) : Token.digest (i.text.toList ++ rest) =
    (if i.negative then [.ok (.symbol .minus)] else []) ++ Token.digest (i.digits ++ rest) := by
  rw [text]
  cases i.negative with
  | false => simp
  | true => simpa using Token.digest_minus i.nonempty i.decimal rest

theorem shows_tokens (h : i.Fits) : Token.Shows i.text.toList i.tokens := by
  intro rest hrest
  have hscan := i.scan_digits hrest
  rw [if_pos (i.fits_iff.mp h)] at hscan
  rw [digest_text, Token.digest_significant i.nonempty rfl hscan, tokens]
  cases i.negative <;> rfl

/-- The fault shows at the character behind the digits, and reading goes on behind that one. -/
theorem digest_fault (h : ¬i.Fits) (hrest : rest.head?.all Token.isApart = true) :
    Token.digest (i.text.toList ++ rest) =
      (if i.negative then [Token.symbol .minus] else []).map .ok ++
        .error .numberOutOfRange :: Token.digest rest.tail := by
  have hscan := i.scan_digits hrest
  rw [if_neg (mt i.fits_iff.mpr h)] at hscan
  rw [digest_text]
  obtain ⟨c, cs, hdigits⟩ := List.exists_cons_of_ne_nil i.nonempty
  rw [hdigits, List.cons_append] at hscan ⊢
  have hbehind : (cs ++ rest).drop (0 + (c :: cs).length) = rest.tail := by
    simp [List.drop_append]
  rw [Token.digest_fault hscan, hbehind]
  cases i.negative <;> rfl

end Scan

/-! ### Its tokens -/

section Read

variable (i : Numeral) {rest : List Token}

/-- The number is read wherever integers are, with its sign. -/
theorem reads_signed {α : Type} {read : Bool → Token → Option α} {f : Int → α}
    (hread : ∀ negative n, read negative (.integer n) = some (f (if negative then -n else n))) :
    Parser.Reads (Parser.signed read) i.tokens rest fun r =>
      ∃ x, r = .inl x ∧ x.val = f i.value := by
  rw [tokens, value]
  cases i.negative with
  | false => exact Parser.reads_signed nofun (hread false i.magnitude)
  | true => exact Parser.reads_signed_minus (hread true i.magnitude)

theorem head?_tokens : (i.tokens ++ rest).head? ≠ some (.symbol .leftBracket) := by
  rw [tokens]
  cases i.negative <;> simp

theorem spelled_argument : Parser.Spelled (.argument (.literal (.integer i.value))) i.tokens := by
  intro rest _
  refine Parser.Reads.look Parser.reads_remaining ?_
  rintro _ rfl
  obtain ⟨n, hn⟩ : ∃ n, (i.tokens ++ rest).length = n + 1 :=
    ⟨(i.tokens ++ rest).length - 1, by simp [tokens]; omega⟩
  rw [hn]
  refine Parser.Reads.last (Q := fun v => v.val = .literal (.integer i.value)) ?_ ?_
  · refine Parser.Reads.look (Parser.reads_eat_none i.head?_tokens) ?_
    rintro _ rfl
    refine Parser.Reads.last (i.reads_signed (f := Literal.integer) fun _ _ => rfl) ?_
    rintro _ ⟨x, rfl, hx⟩
    exact Parser.reads_pure (congrArg Value.literal hx)
  · intro v hv
    exact Parser.reads_pure (congrArg Phrase.argument hv)

theorem spelled_default : Parser.Spelled (.default (.literal (.integer i.value))) i.tokens := by
  intro rest _
  refine Parser.Reads.last (Q := fun d => d.val = .literal (.integer i.value)) ?_ ?_
  · refine Parser.Reads.last (i.reads_signed (f := fun n => Default.literal (.integer n))
      fun _ _ => rfl) ?_
    rintro _ ⟨x, rfl, hx⟩
    exact Parser.reads_pure hx
  · intro d hd
    exact Parser.reads_pure (congrArg Phrase.default hd)

end Read

end Numeral

namespace Source

/-- **The integers of a source are the numbers of 64 bits with a sign, but for the least.** Digits,
maybe with a minus sign before them, in the place of an annotation argument or a default, with
blanks around them where there are no signs: if the number is in the range then the source is read
with it in this place, and is the same otherwise. If it is not then this is the one fault that is
reported. -/
theorem parse_numeral {text gap gap' : String} {s : Source Span}
    {before after : List (Located Span Phrase)} {w : Located Span Phrase} {v : Phrase}
    (hw : parse text = .ok s ∧ s.phrases = before ++ w :: after) (i : Numeral)
    (hv : v = .argument (.literal (.integer i.value)) ∨ v = .default (.literal (.integer i.value)))
    (hkind : v.kind = w.val.kind) (hapart : w.pos.SetApart text gap gap') :
    (i.Fits → ∃ t, parse (w.pos.replace text (gap ++ i.text ++ gap')) = .ok t ∧
      t.phrases.map (·.val) = before.map (·.val) ++ v :: after.map (·.val) ∧
      t.blank = s.blank) ∧
    (¬i.Fits → ∃ report, parse (w.pos.replace text (gap ++ i.text ++ gap')) = .error report ∧
      report.diagnostics.map (·.code) = [some .numberOutOfRange]) := by
  constructor
  · intro hfits
    have hspelled : Parser.Spelled v i.tokens := by
      rcases hv with rfl | rfl
      · exact i.spelled_argument
      · exact i.spelled_default
    exact parse_replace hw.1 hw.2 hkind hspelled hapart (i.shows_tokens hfits)
  · intro hfits
    exact parse_replace_fault hw.1 hw.2 hapart fun _ => i.digest_fault hfits

end Source

namespace Desk

/-- A number with zeros in front. -/
def agent : Numeral :=
  ⟨true, ['0', '0', '7'], by decide, by decide⟩

/-- The least number of 64 bits with a sign. -/
def least : Numeral :=
  ⟨true, "9223372036854775808".toList, by decide, by decide⟩

/-- A number with blanks around it, and one right between the signs around it. -/
theorem least_is_refused :
    let text := "export Desk Card \x7b depth: Long =0\x7d"
    least.value = -9223372036854775808 ∧ agent.value = -7 ∧
    ∃ s before w, Source.parse text = .ok s ∧ s.phrases = before ++ [w] ∧ w.val.kind = .default ∧
      (∃ t, Source.parse (w.pos.replace text (" " ++ agent.text ++ "\n")) = .ok t ∧
        t.phrases.map (·.val) = before.map (·.val) ++ [.default (.literal (.integer agent.value))] ∧
        t.blank = s.blank) ∧
      ∃ report, Source.parse (w.pos.replace text ("" ++ least.text ++ "")) = .error report ∧
        report.diagnostics.map (·.code) = [some .numberOutOfRange] := by
  intro text
  have h : (Source.parse text).toOption.map (fun s => s.phrases.map fun w => (w.val.kind,
      (w.pos.before text).toList.getLast?, (w.pos.behind text).toList.head?)) =
      some [(.type, some ' ', some ' '), (.default, some '=', some '\x7d')] := by
    decide +kernel
  obtain ⟨s, hs, hkinds⟩ := Option.map_eq_some_iff.mp h
  obtain ⟨type, rest, hsplit, _, hrest⟩ := List.map_eq_cons_iff.mp hkinds
  obtain ⟨w, rest, rfl, hfound, hnil⟩ := List.map_eq_cons_iff.mp hrest
  obtain rfl := List.map_eq_nil_iff.mp hnil
  obtain ⟨hkind, hbefore, hbehind⟩ : w.val.kind = .default ∧
      (w.pos.before text).toList.getLast? = some '=' ∧
      (w.pos.behind text).toList.head? = some '\x7d' := by
    simpa only [Prod.mk.injEq] using hfound
  have hparse := eq_ok_of_toOption hs
  have hphrases : s.phrases = [type] ++ [w] := hsplit
  have hagent : agent.Fits := ⟨by decide +kernel, by decide +kernel⟩
  have hleast : ¬least.Fits := fun hfits => absurd hfits.1 (by decide +kernel)
  have hblanks : w.pos.SetApart text " " "\n" := ⟨by decide, by decide, nofun, nofun⟩
  have hsigns : w.pos.SetApart text "" "" :=
    ⟨rfl, rfl, fun _ => hbefore ▸ by decide, fun _ => hbehind ▸ by decide⟩
  have hread := (Source.parse_numeral ⟨hparse, hphrases⟩ agent (.inr rfl) hkind.symm
    hblanks).1 hagent
  have hrefused := (Source.parse_numeral ⟨hparse, hphrases⟩ least (.inr rfl) hkind.symm
    hsigns).2 hleast
  exact ⟨by decide +kernel, by decide +kernel, s, [type], w, hparse, hphrases, hkind, hread,
    hrefused⟩

end Desk

end Projection
