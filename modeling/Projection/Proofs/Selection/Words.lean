import Projection.AliasPattern
import Projection.Proofs.Token.Spelling

/-!
# Words and patterns

A word has word characters only, and the first is no digit (`Token.isWord`). Names are put together
and cut apart, and this module says when the result is a word.

A pattern makes a word of a word in nearly all cases. The exception is `^text ->`, which takes the
text off the front of a name and puts nothing in its place, so that a digit may come first
(`AliasPattern.LeavesDigit`): `line1` becomes `1`. A name of which nothing would be left is kept,
but a name of which digits are left is not.
-/

namespace Projection

namespace Token

/-- A word has word characters only, and the first is no digit. -/
def isWord (name : String) : Bool :=
  name.toList.all isWordChar && name.toList.head?.any (!·.isDigit)

section Words

variable {name more : String}

theorem isWord_iff : isWord name = true ↔
    name.toList.all isWordChar = true ∧ ∃ c cs, name.toList = c :: cs ∧ c.isDigit = false := by
  rw [isWord, Bool.and_eq_true]
  cases name.toList with
  | nil => simp
  | cons c cs => simp

theorem isWord_of_isIdentifier (h : isIdentifier name = true) : isWord name = true := by
  simp only [isIdentifier, Bool.and_eq_true] at h
  rw [isWord, h.1.1.1, h.1.1.2]
  rfl

theorem ne_empty_of_isWord (h : isWord name = true) : name ≠ "" := by
  rintro rfl
  cases h

theorem all_of_isWord (h : isWord name = true) : name.toList.all isWordChar = true :=
  (isWord_iff.mp h).1

/-- A word with word characters behind it. -/
theorem isWord_append (h : isWord name = true) (hmore : more.toList.all isWordChar = true) :
    isWord (name ++ more) = true := by
  obtain ⟨hall, c, cs, hname, hc⟩ := isWord_iff.mp h
  refine isWord_iff.mpr ⟨?_, c, cs ++ more.toList, ?_, hc⟩
  · rw [String.toList_append, List.all_append, hall, hmore]
    rfl
  · rw [String.toList_append, hname, List.cons_append]

/-- What is in front of a word is a word, unless it is empty. -/
theorem isWord_of_append (h : isWord (name ++ more) = true) (hne : name ≠ "") :
    isWord name = true := by
  obtain ⟨hall, c, cs, hname, hc⟩ := isWord_iff.mp h
  rw [String.toList_append] at hall hname
  rw [List.all_append, Bool.and_eq_true] at hall
  cases hchars : name.toList with
  | nil => exact absurd (String.toList_eq_nil_iff.mp hchars) hne
  | cons d ds =>
    rw [hchars, List.cons_append] at hname
    obtain ⟨rfl, _⟩ := List.cons.inj hname
    exact isWord_iff.mpr ⟨hall.1, d, ds, hchars, hc⟩

theorem all_append_iff : (name ++ more).toList.all isWordChar = true ↔
    name.toList.all isWordChar = true ∧ more.toList.all isWordChar = true := by
  rw [String.toList_append, List.all_append, Bool.and_eq_true]

/-! ### Letter case -/

theorem lower_of_isWordChar {c : Char} (h : isWordChar c = true) :
    Text.lower c = [c.toLower] ∧ isWordChar c.toLower = true ∧ c.toLower.isDigit = c.isDigit ∧
      (c.isDigit = true → c.toLower = c) := by
  have hascii : c.toNat < 128 := Nat.lt_of_le_of_lt (toNat_of_isWordChar h).2 (by decide)
  have hchar := of_isWordChar (p := fun c => isWordChar c.toLower &&
    (c.toLower.isDigit == c.isDigit) && (!c.isDigit || c.toLower == c)) (by decide) h
  simp only [Bool.and_eq_true, beq_iff_eq, Bool.or_eq_true, Bool.not_eq_true'] at hchar
  obtain ⟨⟨hword, hdigit⟩, hsame⟩ := hchar
  refine ⟨if_pos hascii, hword, hdigit, fun hc => ?_⟩
  exact hsame.resolve_left (by simp [hc])

theorem upper_of_isWordChar {c : Char} (h : isWordChar c = true) :
    Text.upper c = [c.toUpper] ∧ isWordChar c.toUpper = true := by
  have hascii : c.toNat < 128 := Nat.lt_of_le_of_lt (toNat_of_isWordChar h).2 (by decide)
  exact ⟨if_pos hascii, of_isWordChar (p := fun c => isWordChar c.toUpper) (by decide) h⟩

theorem all_capitalize (h : name.toList.all isWordChar = true) :
    (Text.capitalize name).toList.all isWordChar = true := by
  unfold Text.capitalize
  split
  · rfl
  · rename_i c cs hname
    rw [hname, List.all_cons, Bool.and_eq_true] at h
    obtain ⟨hupper, hc⟩ := upper_of_isWordChar h.1
    rw [hupper, String.toList_ofList, List.singleton_append, List.all_cons, hc, h.2]
    rfl

/-- A name in front of another one, which goes on in upper case. -/
theorem isWord_after {lead : Name} (hlead : isWord lead = true)
    (h : name.toList.all isWordChar = true) : isWord (Name.after name lead) = true :=
  isWord_append hlead (all_capitalize h)

/-- A digit has no lower case. -/
theorem decapitalize_of_digit (h : name.toList.all isWordChar = true)
    (hdigit : name.toList.head?.any Char.isDigit = true) : Text.decapitalize name = name := by
  cases hname : name.toList with
  | nil => simp [hname] at hdigit
  | cons c cs =>
    rw [hname] at h hdigit
    rw [List.all_cons, Bool.and_eq_true] at h
    obtain ⟨hlower, _, _, hsame⟩ := lower_of_isWordChar h.1
    rw [Text.decapitalize, hname]
    dsimp only
    rw [hlower, hsame hdigit, List.singleton_append, ← hname, String.ofList_toList]

/-- A text of word characters becomes a word in lower case, unless it is empty or starts with a
digit. -/
theorem isWord_decapitalize (h : name.toList.all isWordChar = true) :
    isWord (Text.decapitalize name) = true ∨ name = "" ∨
      name.toList.head?.any Char.isDigit = true := by
  cases hname : name.toList with
  | nil => exact .inr (.inl (String.toList_eq_nil_iff.mp hname))
  | cons c cs =>
    rw [hname, List.all_cons, Bool.and_eq_true] at h
    obtain ⟨hlower, hword, hdigit, _⟩ := lower_of_isWordChar h.1
    have hmapped : (Text.decapitalize name).toList = c.toLower :: cs := by
      rw [Text.decapitalize, hname]
      dsimp only
      rw [hlower, String.toList_ofList, List.singleton_append]
    cases hc : c.isDigit with
    | true => exact .inr (.inr hc)
    | false =>
      refine .inl (isWord_iff.mpr ⟨?_, c.toLower, cs, hmapped, hdigit.trans hc⟩)
      rw [hmapped, List.all_cons, hword, h.2]
      rfl

end Words

end Token

/-! ### Patterns -/

namespace AliasPattern

/-- What a source can write: the replacement is a word, or nothing where there is one anchor and a
text. -/
def IsProper (p : AliasPattern) : Prop :=
  Token.isWord p.replacement = true ∨
    p.replacement = "" ∧ p.sought ≠ "" ∧ p.atStart ≠ p.atEnd

/-- The pattern takes its text off the front of the word and puts nothing in its place, and a digit
is first in the rest. -/
structure LeavesDigit (p : AliasPattern) (name rest : Name) : Prop where
  atStart : p.atStart = true
  atEnd : p.atEnd = false
  replacement : p.replacement = ""
  name_eq : name = p.sought ++ rest
  isWord : Token.isWord name = true
  digit : rest.toList.head?.any Char.isDigit = true

variable {p : AliasPattern} {name rest : Name}

theorem LeavesDigit.all (h : p.LeavesDigit name rest) :
    rest.toList.all Token.isWordChar = true :=
  (Token.all_append_iff.mp (h.name_eq ▸ Token.all_of_isWord h.isWord)).2

theorem LeavesDigit.not_isWord (h : p.LeavesDigit name rest) : Token.isWord rest = false := by
  have hdigit := h.digit
  cases hchars : rest.toList with
  | nil => simp [hchars] at hdigit
  | cons c cs =>
    rw [hchars] at hdigit
    rw [Token.isWord, hchars, List.head?_cons, Option.any_some, show c.isDigit = true from hdigit]
    exact Bool.and_false _

theorem IsProper.all (hp : p.IsProper) : p.replacement.toList.all Token.isWordChar = true := by
  rcases hp with hword | ⟨hempty, _⟩
  · exact Token.all_of_isWord hword
  · rw [hempty]
    rfl

theorem withoutLead?_append (lead rest : List Char) :
    withoutLead? lead (lead ++ rest) = some rest := by
  rw [withoutLead?, if_pos (by simp), List.drop_left]

theorem withoutLead?_eq_some {lead cs rest : List Char} (h : withoutLead? lead cs = some rest) :
    cs = lead ++ rest := by
  unfold withoutLead? at h
  split at h
  · rename_i hlead
    cases h
    obtain ⟨more, rfl⟩ := List.isPrefixOf_iff_prefix.mp hlead
    rw [List.drop_left]
  · cases h

theorem withoutTail?_eq_some {tail cs rest : List Char} (h : withoutTail? tail cs = some rest) :
    cs = rest ++ tail := by
  obtain ⟨front, hfront, rfl⟩ := Option.map_eq_some_iff.mp h
  have hreversed := congrArg List.reverse (withoutLead?_eq_some hfront)
  rwa [List.reverse_reverse, List.reverse_append, List.reverse_reverse] at hreversed

theorem eq_append_of_withoutLead? {lead : String} {cs : List Char}
    (h : withoutLead? lead.toList name.toList = some cs) : name = lead ++ String.ofList cs := by
  refine String.toList_injective ?_
  rw [String.toList_append, String.toList_ofList]
  exact withoutLead?_eq_some h

theorem eq_append_of_withoutTail? {tail : String} {cs : List Char}
    (h : withoutTail? tail.toList name.toList = some cs) : name = String.ofList cs ++ tail := by
  refine String.toList_injective ?_
  rw [String.toList_append, String.toList_ofList]
  exact withoutTail?_eq_some h

theorem all_replaceAll {old new cs : List Char} (hnew : new.all Token.isWordChar = true)
    (hcs : cs.all Token.isWordChar = true) (n : Nat) :
    (replaceAll old new n cs).all Token.isWordChar = true := by
  induction cs generalizing n with
  | nil => cases n <;> rfl
  | cons c cs ih =>
    rw [List.all_cons, Bool.and_eq_true] at hcs
    cases n with
    | succ n => exact ih hcs.2 n
    | zero =>
      rw [replaceAll]
      split
      · rw [List.all_append, hnew, ih hcs.2]
        rfl
      · rw [List.all_cons, hcs.1, ih hcs.2]
        rfl

/-- Every replaced text in a word starts as the word or as the replacement. -/
theorem isWord_replaceAll (old : List Char) (hnew : Token.isWord p.replacement = true)
    (hname : Token.isWord name = true) :
    Token.isWord (String.ofList (replaceAll old p.replacement.toList 0 name.toList)) = true := by
  obtain ⟨hall, c, cs, hchars, hc⟩ := Token.isWord_iff.mp hname
  obtain ⟨hall', d, ds, hchars', hd⟩ := Token.isWord_iff.mp hnew
  have hresult : (replaceAll old p.replacement.toList 0 name.toList).all Token.isWordChar = true :=
    all_replaceAll hall' hall 0
  refine Token.isWord_iff.mpr ?_
  rw [String.toList_ofList]
  refine ⟨hresult, ?_⟩
  rw [hchars, replaceAll]
  split
  · exact ⟨d, _, by rw [hchars', List.cons_append], hd⟩
  · exact ⟨c, _, rfl, hc⟩

/-- The text of the pattern was in front of the word. -/
theorem isWord_of_lead (hp : p.IsProper) (hname : Token.isWord name = true)
    (hstart : p.atStart = true) (hend : p.atEnd = false) (hsplit : name = p.sought ++ rest)
    {result : Name} (hresult : result = if p.replacement.isEmpty then Text.decapitalize rest
      else Name.after rest p.replacement) (hne : result ≠ "") :
    Token.isWord result = true ∨ p.LeavesDigit name result := by
  have hrest := (Token.all_append_iff.mp (hsplit ▸ Token.all_of_isWord hname)).2
  rcases hp with hword | ⟨hnone, _⟩
  · have hsome : p.replacement.isEmpty = false := by
      rw [← Bool.not_eq_true, String.isEmpty_iff]
      exact Token.ne_empty_of_isWord hword
    rw [hsome, if_neg Bool.false_ne_true] at hresult
    rw [hresult]
    exact .inl (Token.isWord_after hword hrest)
  · rw [hnone, if_pos (show "".isEmpty = true from rfl)] at hresult
    rcases Token.isWord_decapitalize hrest with hword | rfl | hdigit
    · exact .inl (hresult ▸ hword)
    · exact absurd hresult hne
    · obtain rfl : result = rest := hresult.trans (Token.decapitalize_of_digit hrest hdigit)
      exact .inr ⟨hstart, hend, hnone, hsplit, hname, hdigit⟩

/-- The text of the pattern was behind `rest`. -/
theorem isWord_of_tail (hp : p.IsProper) (hname : Token.isWord name = true)
    (hsplit : name = rest ++ p.sought) (hne : rest ++ p.replacement ≠ "") :
    Token.isWord (rest ++ p.replacement) = true := by
  by_cases hempty : rest = ""
  · rw [hempty, String.empty_append] at hne ⊢
    rcases hp with hword | ⟨hnone, _⟩
    · exact hword
    · exact absurd hnone hne
  · exact Token.isWord_append (Token.isWord_of_append (hsplit ▸ hname) hempty) hp.all

/-- **What a pattern makes of a word**: a word, unless it leaves a digit in front. -/
theorem isWord_rename? (hp : p.IsProper) (hname : Token.isWord name = true) {result : Name}
    (h : p.rename? name = some result) (hne : result ≠ "") :
    Token.isWord result = true ∨ p.LeavesDigit name result := by
  -- Only one anchor with a text may go with an empty replacement.
  have hword (hboth : p.sought = "" ∨ p.atStart = p.atEnd) : Token.isWord p.replacement = true := by
    rcases hp with hword | ⟨_, hsought, hanchors⟩
    · exact hword
    · exact hboth.elim (absurd · hsought) (absurd · hanchors)
  unfold rename? at h
  split at h
  case h_1 hempty =>
    -- without a text the replacement goes in front, so it cannot be empty
    cases h
    have hreplacement := hword (.inl (String.isEmpty_iff.mp hempty))
    exact .inl (Token.isWord_after hreplacement (Token.all_of_isWord hname))
  case h_2 =>
    cases h
    exact .inl (Token.isWord_append hname hp.all)
  case h_3 hstart hend _ =>
    -- both anchors: the whole name is replaced
    split at h
    · cases h
      exact .inl (hword (.inr (hstart.trans hend.symm)))
    · cases h
  case h_4 hstart hend _ =>
    obtain ⟨cs, hcs, hresult⟩ := Option.map_eq_some_iff.mp h
    exact isWord_of_lead hp hname hstart hend (eq_append_of_withoutLead? hcs) hresult.symm hne
  case h_5 =>
    obtain ⟨cs, hcs, rfl⟩ := Option.map_eq_some_iff.mp h
    exact .inl (isWord_of_tail hp hname (eq_append_of_withoutTail? hcs) hne)
  case h_6 hstart hend _ =>
    cases h
    exact .inl (isWord_replaceAll _ (hword (.inr (hstart.trans hend.symm))) hname)
  case h_7 => cases h

theorem isWord_apply (hp : p.IsProper) (hname : Token.isWord name = true) :
    Token.isWord (p.apply name) = true ∨ p.LeavesDigit name (p.apply name) := by
  unfold apply
  split
  · rename_i rest hrest
    split
    · exact .inl hname
    · rename_i hne
      exact isWord_rename? hp hname hrest fun hempty => hne (String.isEmpty_iff.mpr hempty)
  · exact .inl hname

/-- What is left is the name that the pattern gives. -/
theorem LeavesDigit.apply_eq (h : p.LeavesDigit name rest) : p.apply name = rest := by
  have hsought : p.sought.isEmpty = false := by
    rw [← Bool.not_eq_true, String.isEmpty_iff]
    intro hempty
    have hsame : name = rest := by rw [h.name_eq, hempty, String.empty_append]
    exact absurd h.isWord (by simp [hsame, h.not_isWord])
  have hlead : withoutLead? p.sought.toList name.toList = some rest.toList := by
    rw [h.name_eq, String.toList_append, withoutLead?_append]
  have hsame : Text.decapitalize rest = rest := Token.decapitalize_of_digit h.all h.digit
  have hne : rest.isEmpty = false := by
    rw [← Bool.not_eq_true, String.isEmpty_iff]
    rintro rfl
    exact absurd h.digit (by decide)
  have hrenamed : p.rename? name = some rest := by
    rw [rename?, h.atStart, h.atEnd, hsought, hlead, h.replacement]
    simp [hsame]
  rw [apply, hrenamed]
  simp [hne]

end AliasPattern

end Projection
