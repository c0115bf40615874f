import Projection.Proofs.Source.Replacing
import Projection.Proofs.Source.Sound
import Projection.Proofs.Token.Showing

/-!
# Phrases are read back from their texts

A type, the pattern of an alias group, the value of an annotation argument and the default of a
user-defined property each have a text to show them. It can be written into a source again: in the
place of any phrase of its kind it is read as the same phrase, if it holds no decimal
(`Source.parse_shown`).

Three things come together. The text of a phrase shows its tokens, the tokens spell the phrase, and
a phrase that was read from a text is one that both can be said of (`Phrase.IsSound`).
-/

namespace Projection

open Token (Shows isIdentifier isApart)

/-! ### Texts of phrases -/

/-- The phrase as it is shown. A pattern stands between the parentheses of its group. -/
def Phrase.text : Phrase → String
  | type t => t.text
  | pattern p => "as(" ++ p.text ++ ")"
  | argument v => v.text
  | default d => d.text

def Phrase.tokens : Phrase → List Token
  | type t => t.tokens
  | pattern p => p.tokens
  | argument v => v.tokens
  | default d => d.tokens

/-! ### The text of a phrase shows its tokens -/

theorem Name.toList_foldl_join (first : Name) (more : List Name) :
    (more.foldl Name.join first).toList =
      first.toList ++ more.flatMap fun s => '.' :: s.toList := by
  induction more generalizing first with
  | nil => simp
  | cons next more ih =>
    rw [List.foldl_cons, ih, List.flatMap_cons, Name.join]
    simp

theorem Name.shows_segments (first : Name) (more : List Name)
    (h : ∀ s ∈ first :: more, isIdentifier s = true) :
    Shows (first.toList ++ more.flatMap fun s => '.' :: s.toList)
      (.word first :: more.flatMap fun s => [.symbol .dot, .word s]) := by
  induction more generalizing first with
  | nil =>
    rw [List.flatMap_nil, List.flatMap_nil, List.append_nil]
    exact Token.shows_spelling (t := .word first) (h first List.mem_cons_self) nofun
  | cons next more ih =>
    have hmore := (ih next fun s hs => h s (List.mem_cons_of_mem _ hs)).symbol (s := .dot) nofun
    intro rest hrest
    have hends : ∀ cs, (Token.word first).endsBefore ('.' :: cs) = true := fun _ => rfl
    have hword := Token.digest_spelling (t := .word first) (h first List.mem_cons_self)
      (hends (next.toList ++ (more.flatMap fun s => '.' :: s.toList) ++ rest))
    have hdigest := hword.trans (congrArg _ (hmore rest hrest))
    simpa [Token.spelling] using hdigest

theorem Name.shows_text {name : Name} (h : isQualified name = true) :
    Shows name.toList (tokens name) := by
  obtain ⟨first, more, hsegments, htokens, hjoin⟩ := tokens_eq name
  rw [isQualified, hsegments, List.all_eq_true] at h
  rw [htokens, ← hjoin, toList_foldl_join]
  exact shows_segments first more h

theorem Literal.shows_text {l : Literal} (h : l.isWritable = true) (format : Binary64.Format) :
    Shows (l.text format).toList l.tokens := by
  cases l with
  | boolean value =>
    cases value
    · exact Token.shows_spelling (t := .word "false") (by decide) nofun
    · exact Token.shows_spelling (t := .word "true") (by decide) nofun
  | integer value =>
    have hvalue : (Token.integer value.natAbs).isSpellable = true := h
    have hdigits := Token.shows_spelling hvalue nofun
    cases value with
    | ofNat n => exact Nat.toList_repr ▸ hdigits
    | negSucc n =>
      have hall : (Nat.toDigits 10 (n + 1)).all Char.isDigit = true :=
        List.all_eq_true.mpr fun c hc => Nat.isDigit_of_mem_toDigits (by decide) (by decide) hc
      have htext : (Literal.text format (.integer (.negSucc n))).toList =
          '-' :: Nat.toDigits 10 (n + 1) := by
        rw [← Nat.toList_repr]
        exact String.toList_append
      rw [htext, Literal.tokens, if_pos (Int.negSucc_lt_zero n)]
      exact hdigits.minus Nat.toDigits_ne_nil hall
  | decimal value => cases h
  | quoted value => exact Token.shows_quoted value

/-- Texts with commas and blanks between them. -/
theorem Token.shows_separated {texts : List String} {rows : List (List Token)}
    (h : List.Forall₂ (fun text row => Shows text.toList row) texts rows) {cs : List Char}
    {tokens : List Token} (hcs : Shows cs tokens) (hhead : cs.head?.all isApart = true) :
    Shows ((", ".intercalate texts).toList ++ cs) (separated rows ++ tokens) := by
  induction h with
  | nil => exact hcs
  | @cons text row texts rows hrow hrows ih =>
    cases hrows with
    | nil =>
      rw [String.intercalate_singleton, separated_singleton]
      exact hrow.append hcs hhead
    | @cons next nextRow texts rows hnext hrows =>
      have hmore := hrow.append (ih.space.symbol (s := .comma) nofun) rfl
      rw [separated_cons_cons, String.intercalate_cons_cons]
      simpa [Symbol.text] using hmore

mutual

theorem Value.shows_text : ∀ v : Value, v.isWritable = true → Shows v.text.toList v.tokens
  | .literal l, h => Literal.shows_text h _
  | .constant name, h => by
    rw [Value.isWritable, Bool.and_eq_true] at h
    exact Name.shows_text h.1
  | .list values, h => by
    rw [Value.isWritable] at h
    have hclose := Token.shows_nil.symbol (s := .rightBracket) nofun
    have hvalues := (Token.shows_separated (Value.shows_texts values h) hclose rfl).symbol
      (s := .leftBracket) nofun
    rw [Value.text, Value.tokens]
    simpa [Symbol.text] using hvalues

theorem Value.shows_texts : ∀ values : List Value, Value.allWritable values = true →
    List.Forall₂ (fun text row => Shows text.toList row) (Value.texts values) (Value.rows values)
  | [], _ => .nil
  | v :: values, h => by
    rw [Value.allWritable, Bool.and_eq_true] at h
    exact .cons (Value.shows_text v h.1) (Value.shows_texts values h.2)

end

mutual

theorem TypeRef.shows_text : ∀ type : TypeRef, type.isWritable = true →
    Shows type.text.toList type.tokens
  | ⟨name, arguments, nullable⟩, h => by
    rw [TypeRef.isWritable, Bool.and_eq_true] at h
    have hmark : Shows (if nullable then "?" else "").toList
        (if nullable then [Token.symbol .question] else []) := by
      cases nullable
      · exact Token.shows_nil
      · exact Token.shows_nil.symbol (s := .question) nofun
    have hmarkHead : (if nullable then "?" else "").toList.head?.all isApart = true := by
      cases nullable <;> rfl
    have hname := Name.shows_text h.1
    rw [TypeRef.text, TypeRef.tokens]
    cases arguments with
    | nil => simpa using hname.append hmark hmarkHead
    | cons argument arguments =>
      have hclose := hmark.symbol (s := .greater) nofun
      have harguments := (Token.shows_separated
        (TypeRef.shows_texts (argument :: arguments) h.2) hclose rfl).symbol (s := .less) nofun
      simpa [Symbol.text] using hname.append harguments rfl

theorem TypeRef.shows_texts : ∀ types : List TypeRef, TypeRef.allWritable types = true →
    List.Forall₂ (fun text row => Shows text.toList row) (TypeRef.texts types) (TypeRef.rows types)
  | [], _ => .nil
  | type :: types, h => by
    rw [TypeRef.allWritable, Bool.and_eq_true] at h
    exact .cons (TypeRef.shows_text type h.1) (TypeRef.shows_texts types h.2)

end

theorem Default.shows_text {d : Default} (h : d.isWritable = true) :
    Shows d.text.toList d.tokens := by
  cases d with
  | null => exact Token.shows_spelling (t := .word "null") (by decide) nofun
  | literal l => exact Literal.shows_text h _

theorem AliasPattern.shows_wordTokens {name : String} (h : IsOptionalWord name) {cs : List Char}
    {tokens : List Token} (hcs : Shows cs tokens) (hhead : cs.head?.all isApart = true) :
    Shows (name.toList ++ cs) (wordTokens name ++ tokens) := by
  unfold wordTokens
  split
  · rename_i hempty
    obtain rfl : name = "" := by simpa using hempty
    exact hcs
  · rename_i hname
    have hword : (Token.word name).isSpellable = true := h (by simpa using hname)
    exact (Token.shows_spelling hword nofun).append hcs hhead

theorem AliasPattern.shows_text {p : AliasPattern} (h : IsOptionalWord p.written)
    (h' : IsOptionalWord p.replacement) :
    Shows ("as(" ++ p.text ++ ")").toList p.tokens := by
  have hclose := Token.shows_nil.symbol (s := .rightParen) nofun
  have harrow := (shows_wordTokens h' hclose rfl).space.symbol (s := .arrow) nofun
  have hwritten := shows_wordTokens h harrow.space rfl
  have hcaret : Shows ((if p.atStart then "^" else "").toList ++ (p.written.toList ++
      ' ' :: '-' :: '>' :: ' ' :: (p.replacement.toList ++ [')'])))
      ((if p.atStart then [Token.symbol .caret] else []) ++ (wordTokens p.written ++
        Token.symbol .arrow :: (wordTokens p.replacement ++ [Token.symbol .rightParen]))) := by
    cases p.atStart
    · exact hwritten
    · exact hwritten.symbol (s := .caret) nofun
  have hgroup := (Token.shows_spelling (t := .keyword .asWord) rfl nofun).append
    (hcaret.symbol (s := .leftParen) nofun) rfl
  have hend : p.written.toList = p.sought.toList ++ (if p.atEnd then "$" else "").toList := by
    unfold written
    cases p.atEnd <;> simp
  rw [hend] at hgroup
  simpa [text, tokens, Token.spelling, Keyword.text, Symbol.text] using hgroup

theorem Phrase.shows_text {v : Phrase} (h : v.IsSound) : Shows v.text.toList v.tokens := by
  cases v with
  | type t => exact TypeRef.shows_text t h
  | pattern p => exact AliasPattern.shows_text h.2.1 h.2.2
  | argument v => exact Value.shows_text v h
  | default d => exact Default.shows_text h

/-! ### The tokens of a phrase spell it -/

theorem Parser.spelled_tokens {v : Phrase} (h : v.IsSound) : Spelled v v.tokens := by
  intro rest hrest
  cases v with
  | type t =>
    refine Reads.look reads_remaining ?_
    rintro _ rfl
    refine Reads.last (reads_type t (by simp [Phrase.tokens]) hrest) ?_
    rintro x rfl
    exact reads_pure rfl
  | pattern p =>
    have htokens : p.tokens = [.keyword .asWord] ++ p.tokens.tail := rfl
    rw [Phrase.tokens, htokens]
    refine Reads.take reads_eatToken ?_
    rintro _ ⟨keyword, rfl⟩
    refine Reads.last (reads_told p h.1) ?_
    rintro x rfl
    exact reads_pure rfl
  | argument v =>
    have hdot : rest.head? ≠ some (.symbol .dot) := by
      rcases hrest with hcomma | hparen
      · simp [hcomma]
      · simp [hparen]
    refine Reads.look reads_remaining ?_
    rintro _ rfl
    refine Reads.last (reads_value v h (by simp [Phrase.tokens]) hdot) ?_
    rintro x rfl
    exact reads_pure rfl
  | default d =>
    refine Reads.last (reads_defaultValue d) ?_
    rintro x rfl
    exact reads_pure rfl

/-! ### Phrases of a source in another -/

namespace Source

theorem isSound_of_parse {text : String} {s : Source Span} (h : parse text = .ok s)
    {w : Located Span Phrase} (hw : w ∈ s.phrases) {v : Phrase} (hv : v ∈ w.val.parts)
    (hdecimal : v.hasDecimal = false) : v.IsSound := by
  obtain ⟨before, after, hphrases⟩ := List.append_of_mem hw
  obtain ⟨lead, tail, front, old, back, hhole⟩ := exists_hole h hphrases
  obtain ⟨pos, hphrase⟩ := hhole.phrase
  refine hphrase.isSound (List.all_eq_true.mpr fun t ht => ?_) hv hdecimal
  have htokens := hhole.tokens
  cases hall : Token.tokenize text with
  | error report =>
    rw [hall] at htokens
    cases htokens
  | ok all =>
    rw [hall] at htokens
    have hmem : t ∈ Token.significant all := by
      rw [show Token.significant all = _ from Except.ok.inj htokens]
      exact List.mem_append_right _ (List.mem_append_left _ ht)
    obtain ⟨located, hlocated, rfl⟩ := List.mem_map.mp hmem
    exact Token.isScannable_of_tokenize hall (List.mem_of_mem_filter hlocated)

/-- **A phrase is read back from its text.** Take a phrase of a source that was read, or one inside
of it, such as an argument of a type or a member of a list, and let it hold no decimal. Its text can
be written in the place of any phrase of its kind in any source that was read, with blanks around it
where there are no signs. The result is read, has this phrase in this place, and is the same
otherwise. -/
theorem parse_shown {text text' gap gap' : String} {s s' : Source Span}
    {before after : List (Located Span Phrase)} {w u : Located Span Phrase} {v : Phrase}
    (hu : parse text' = .ok s' ∧ u ∈ s'.phrases) (hv : v ∈ u.val.parts)
    (hdecimal : v.hasDecimal = false)
    (hw : parse text = .ok s ∧ s.phrases = before ++ w :: after) (hkind : v.kind = w.val.kind)
    (hapart : w.pos.SetApart text gap gap') :
    ∃ t, parse (w.pos.replace text (gap ++ v.text ++ gap')) = .ok t ∧
      t.phrases.map (·.val) = before.map (·.val) ++ v :: after.map (·.val) ∧
      t.blank = s.blank := by
  have hsound := isSound_of_parse hu.1 hu.2 hv hdecimal
  exact parse_replace hw.1 hw.2 hkind (Parser.spelled_tokens hsound) hapart
    (Phrase.shows_text hsound)

/-- A member of a list, with a character that is shown by its code point, in the place of an
argument in another source, between its parentheses. -/
theorem mark_parse_shown :
    let text := "export Desk @Sign(0) Card \x7b note: String \x7d"
    let text' := "export Desk @Sign(marks = [-1, \"\\u\x7b7\x7d\"]) Card \x7b note: String \x7d"
    ∃ s w after s' u v, (parse text = .ok s ∧ s.phrases = w :: after) ∧
      (parse text' = .ok s' ∧ u ∈ s'.phrases) ∧ v ∈ u.val.parts ∧
      v.text = "\"\\u\x7b7\x7d\"" ∧
      ∃ t, parse (w.pos.replace text ("" ++ v.text ++ "")) = .ok t ∧
        t.phrases.map (·.val) = v :: after.map (·.val) ∧ t.blank = s.blank := by
  intro text text'
  have h : (parse text).toOption.map (fun s => s.phrases.map fun w => (w.val.kind,
      (w.pos.before text).toList.getLast?, (w.pos.behind text).toList.head?)) =
      some [(.argument, some '(', some ')'), (.type, some ' ', some ' ')] := by
    decide +kernel
  have h' : (parse text').toOption.map (fun s => s.phrases.flatMap fun u =>
      (u.val.parts.filter fun v => v.text == "\"\\u\x7b7\x7d\"").map fun v =>
        (v.hasDecimal, v.kind)) = some [(false, .argument)] := by
    decide +kernel
  obtain ⟨s, hs, hkinds⟩ := Option.map_eq_some_iff.mp h
  obtain ⟨w, after, hsplit, hfirst, _⟩ := List.map_eq_cons_iff.mp hkinds
  obtain ⟨hkind, hbefore, hbehind⟩ : w.val.kind = .argument ∧
      (w.pos.before text).toList.getLast? = some '(' ∧
      (w.pos.behind text).toList.head? = some ')' := by
    simpa only [Prod.mk.injEq] using hfirst
  have hsigns : w.pos.SetApart text "" "" :=
    ⟨rfl, rfl, fun _ => hbefore ▸ by decide, fun _ => hbehind ▸ by decide⟩
  obtain ⟨s', hs', hmarks⟩ := Option.map_eq_some_iff.mp h'
  obtain ⟨u, hu, hmark⟩ := List.mem_flatMap.mp (hmarks ▸ List.mem_singleton.mpr rfl)
  obtain ⟨v, hv, hfound⟩ := List.mem_map.mp hmark
  obtain ⟨hpart, htext⟩ := List.mem_filter.mp hv
  have hparse := eq_ok_of_toOption hs
  have hparse' := eq_ok_of_toOption hs'
  have hwhole : s.phrases = [] ++ w :: after := hsplit
  have hsame : v.kind = w.val.kind := (congrArg Prod.snd hfound).trans hkind.symm
  exact ⟨s, w, after, s', u, v, ⟨hparse, hsplit⟩, ⟨hparse', hu⟩, hpart, eq_of_beq htext,
    parse_shown ⟨hparse', hu⟩ hpart (congrArg Prod.fst hfound) ⟨hparse, hwhole⟩ hsame hsigns⟩

end Source

end Projection
