import Projection.Proofs.Source.Pointing
import Projection.Proofs.Source.Refilling
import Projection.Proofs.Token.Showing

/-!
# Other phrases in a text

The position of a phrase cuts it out of the text of its source. Another text can be put in its place
(`Span.replace`), with blanks on both sides where there are no signs. What stands before and behind
is read as before, so the source has the other phrase in this place and is the same otherwise, if
the text spells a phrase of this kind (`Source.parse_replace`).
-/

namespace Projection

/-! ### Tokens with comments and blanks between them -/

/-- The members of a list that pass a test, from the first to the last of some of them. -/
theorem List.exists_of_filter_eq {α : Type} {p : α → Bool} {all first mid last : List α}
    (h : all.filter p = first ++ (mid ++ last)) (hne : mid ≠ []) :
    ∃ before inner after, all = before ++ (inner ++ after) ∧ before.filter p = first ∧
      inner.filter p = mid ∧ after.filter p = last ∧ inner.head? = mid.head? ∧
      inner.getLast? = mid.getLast? := by
  obtain ⟨before, rest, rfl, rfl, hrest⟩ := List.filter_eq_append_iff.mp h
  obtain ⟨m, mid, rfl⟩ := List.exists_cons_of_ne_nil hne
  rw [List.cons_append] at hrest
  obtain ⟨skipped, rest, rfl, hskipped, hm, hrest⟩ := List.filter_eq_cons_iff.mp hrest
  have hbefore : (before ++ skipped).filter p = before.filter p := by
    rw [List.filter_append, List.filter_eq_nil_iff.mpr hskipped, List.append_nil]
  rcases List.eq_nil_or_concat mid with rfl | ⟨mid, z, rfl⟩
  · exact ⟨before ++ skipped, [m], rest, by simp, hbefore, by simp [hm], hrest, rfl, rfl⟩
  · rw [List.concat_eq_append, List.append_assoc, List.singleton_append] at hrest
    obtain ⟨inner, rest, rfl, rfl, hlast⟩ := List.filter_eq_append_iff.mp hrest
    obtain ⟨skipped', after, rfl, hskipped', hz, rfl⟩ := List.filter_eq_cons_iff.mp hlast
    have hnone := List.filter_eq_nil_iff.mpr hskipped'
    refine ⟨before ++ skipped, m :: (inner ++ (skipped' ++ [z])), after, by simp, hbefore, ?_, rfl,
      rfl, ?_⟩
    · simp [hm, hnone, hz]
    · simp [List.getLast?_cons]

/-- A row of tokens cuts out its piece of the text, from its first token to its last. -/
theorem Token.Tiles.union_eq {offset : Nat} {cs : List Char} {tokens : List (Located Span Token)}
    (h : Tiles offset cs tokens) {t u : Located Span Token} (ht : tokens.head? = some t)
    (hu : tokens.getLast? = some u) :
    (t.pos.union u.pos).start = offset ∧ (t.pos.union u.pos).stop = offset + byteSize cs := by
  have hbounds : ∀ v ∈ tokens, offset ≤ v.pos.start ∧ v.pos.stop ≤ offset + byteSize cs := by
    intro v hv
    obtain ⟨before, piece, after, rfl, _, hstart, hstop⟩ := h.exists_piece hv
    simp only [byteSize_append]
    omega
  have hstart := h.start_head ht
  have hstop := h.stop_last hu
  have hstart' := (hbounds u (List.mem_of_getLast? hu)).1
  have hstop' := (hbounds t (List.mem_of_head? ht)).2
  simp only [Span.union]
  omega

/-- What stands around a row of tokens. -/
theorem Token.Tiles.around {text : String} {lead piece tail : List Char}
    {tokens : List (Located Span Token)} (htext : text.toList = lead ++ (piece ++ tail))
    (h : Tiles (byteSize lead) piece tokens) {t u : Located Span Token}
    (ht : tokens.head? = some t) (hu : tokens.getLast? = some u) :
    ((t.pos.union u.pos).before text).toList = lead ∧
      ((t.pos.union u.pos).behind text).toList = tail := by
  have hsize (cs : List Char) : (String.ofList cs).utf8ByteSize = byteSize cs := by
    rw [← byteSize_toList, String.toList_ofList]
  have hparts : text = String.ofList lead ++ String.ofList piece ++ String.ofList tail := by
    rw [← String.ofList_append, ← String.ofList_append, List.append_assoc, ← htext,
      String.ofList_toList]
  obtain ⟨hstart, hstop⟩ := h.union_eq ht hu
  rw [hparts, Span.before_append (hstart.trans (hsize lead).symm),
    Span.behind_append (by rw [hstop, hsize, hsize]), String.toList_ofList, String.toList_ofList]
  exact ⟨rfl, rfl⟩

theorem Token.place_of_covers {front mid back : List (Located Span Token)} {r : TokenRange}
    (h : r.Covers front.length (front.length + mid.length)) {t u : Located Span Token}
    (ht : mid.head? = some t) (hu : mid.getLast? = some u) :
    place (front ++ (mid ++ back)) r = t.pos.union u.pos := by
  obtain ⟨hfirst, hlast⟩ := h
  refine Laid.place_eq ?_ ?_
  · rw [hfirst, List.getElem?_append_right (Nat.le_refl _), Nat.sub_self,
      ← List.head?_eq_getElem?, List.head?_append, ht]
    rfl
  · have hpos : 0 < mid.length := List.length_pos_of_mem (List.mem_of_head? ht)
    rw [List.getElem?_append_right (by omega), List.getElem?_append_left (by omega), ← hu,
      List.getLast?_eq_getElem?]
    congr 1
    omega

namespace Source

/-- Where a phrase of a source stands in its text: the characters before it and behind it, and the
tokens before it, its own, and those behind it. -/
structure Hole (text : String) (s : Source Span) (before : List (Located Span Phrase))
    (w : Located Span Phrase) (after : List (Located Span Phrase)) (lead tail : List Char)
    (front old back : List Token) : Prop where
  around : (w.pos.before text).toList = lead ∧ (w.pos.behind text).toList = tail
  lead : ∀ next : List Char, Token.Parted lead next →
    Token.digest (lead ++ next) = front.map .ok ++ Token.digest next
  tail : Token.digest tail = back.map .ok
  tokens : (Token.tokenize text).map Token.significant = .ok (front ++ (old ++ back))
  phrase : ∃ pos, Parser.PhraseAt front.length old ⟨w.val, pos⟩
  refill : ∀ v new, v.kind = w.val.kind → Parser.Spelled v new → ∃ t : Source TokenRange,
    ofSignificant (front ++ (new ++ back)) = .ok t ∧
      t.phrases.map (·.val) = before.map (·.val) ++ v :: after.map (·.val) ∧ t.blank = s.blank

theorem exists_hole {text : String} {s : Source Span} (h : parse text = .ok s)
    {before after : List (Located Span Phrase)} {w : Located Span Phrase}
    (hw : s.phrases = before ++ w :: after) :
    ∃ lead tail front old back, Hole text s before w after lead tail front old back := by
  obtain ⟨all, found, hall, hfound, rfl⟩ := exists_of_parse h
  rw [phrases_move] at hw
  obtain ⟨before, rest, hphrases, rfl, hrest⟩ := List.map_eq_append_iff.mp hw
  obtain ⟨w, after, rfl, rfl, rfl⟩ := List.map_eq_cons_iff.mp hrest
  obtain ⟨front, old, back, ⟨htokens, hphrase⟩, hfill⟩ := ofSignificant_fillable hfound hphrases
  rw [Nat.zero_add] at hphrase
  obtain ⟨fronts, rest, hfilter, rfl, hrest⟩ := List.map_eq_append_iff.mp htokens
  obtain ⟨olds, backs, rfl, rfl, rfl⟩ := List.map_eq_append_iff.mp hrest
  have hne : olds ≠ [] := fun hnil => hphrase.ne_nil (by rw [hnil, List.map_nil])
  -- the comments and blanks inside the phrase go with it, those around it stay
  obtain ⟨first, inner, last, rfl, hfirst, hinner, hlast, hhead, hend⟩ :=
    List.exists_of_filter_eq hfilter hne
  obtain ⟨lead, rest, htext, htiles, hscanned, hlead⟩ := (Token.scanned_of_tokenize hall).cut
  obtain ⟨piece, tail, rfl, htiles', hscanned', _⟩ := hscanned.cut
  obtain ⟨t, ht⟩ : ∃ t, olds.head? = some t :=
    Option.isSome_iff_exists.mp (List.isSome_head?.mpr hne)
  obtain ⟨u, hu⟩ : ∃ u, olds.getLast? = some u :=
    ⟨_, List.getLast?_eq_some_getLast hne⟩
  rw [ht] at hhead
  rw [hu] at hend
  have hsignificant : t.val.isTrivia = false := by
    have hmem : t ∈ (inner.filter fun t => !t.val.isTrivia) := hinner ▸ List.mem_of_head? ht
    simpa using (List.mem_filter.mp hmem).2
  refine ⟨lead, tail, fronts.map (·.val), olds.map (·.val), backs.map (·.val), ?_, ?_, ?_, ?_,
    ⟨w.pos, hphrase⟩, ?_⟩
  · have hcovers := hphrase.covers
    rw [List.length_map, List.length_map] at hcovers
    rw [Nat.zero_add] at htiles'
    have haround := htiles'.around htext hhead hend
    rw [← Token.place_of_covers hcovers ht hu, ← hfilter] at haround
    exact haround
  · intro next hparted
    have hnewline : (piece ++ tail).head?.any (· != '\n') = true :=
      hscanned.head?_of_significant (by rw [List.head?_append, hhead]; rfl) hsignificant
    rw [hlead next hnewline hparted, Token.significant, hfirst]
  · rw [hscanned'.digest_eq, Token.significant, hlast]
  · rw [hall]
    exact congrArg Except.ok htokens
  · intro v new hkind hspelled
    obtain ⟨t, ht, hchanged⟩ := hfill v new hkind hspelled
    refine ⟨t, ht, ?_, hchanged.blank.trans (blank_move _ found).symm⟩
    simpa only [List.map_map, Function.comp_def, Located.move] using hchanged.phrases

section Replace

variable {text new gap gap' : String} {s : Source Span} {before after : List (Located Span Phrase)}
  {w : Located Span Phrase} {v : Phrase}

section Hole

variable {lead tail : List Char} {front old back : List Token}

/-- The text with another one in place of a phrase: the tokens before it are the same. -/
theorem Hole.digest_eq (h : Hole text s before w after lead tail front old back)
    (hapart : w.pos.SetApart text gap gap') (new : String) :
    Token.digest (w.pos.replace text (gap ++ new ++ gap')).toList =
      front.map .ok ++ Token.digest (new.toList ++ (gap'.toList ++ tail)) := by
  have hparted (next : List Char) : Token.Parted lead (gap.toList ++ next) := by
    cases hgap : gap.toList with
    | nil => exact .inl (h.around.1 ▸ hapart.before (String.toList_eq_nil_iff.mp hgap))
    | cons c cs =>
      have hblank := hapart.blank
      rw [hgap, List.all_cons, Bool.and_eq_true] at hblank
      exact .inr hblank.1
  rw [Span.replace, String.toList_append, String.toList_append, String.toList_append,
    String.toList_append, h.around.1, h.around.2, List.append_assoc, List.append_assoc,
    List.append_assoc, h.lead _ (hparted _), Token.digest_blanks hapart.blank]

/-- What stands behind a phrase goes on with no word and no number. -/
theorem Hole.head?_behind (h : Hole text s before w after lead tail front old back)
    (hapart : w.pos.SetApart text gap gap') :
    (gap'.toList ++ tail).head?.all Token.isApart = true := by
  cases hgap : gap'.toList with
  | nil =>
    have hsign := h.around.2 ▸ hapart.behind (String.toList_eq_nil_iff.mp hgap)
    cases tail with
    | nil => rfl
    | cons c tail => exact Token.isApart_of_isSign hsign
  | cons c cs =>
    have hblank := hapart.blank'
    rw [hgap, List.all_cons, Bool.and_eq_true] at hblank
    exact Token.isApart_of_isBlank hblank.1

/-- Behind a phrase there are no faults, also if the first character is left out. -/
theorem Hole.digest_tail (h : Hole text s before w after lead tail front old back)
    (hapart : w.pos.SetApart text gap gap') :
    ∃ tokens : List Token, Token.digest (gap'.toList ++ tail).tail = tokens.map .ok := by
  have htail := h.tail
  cases hgap : gap'.toList with
  | nil =>
    have hsign := h.around.2 ▸ hapart.behind (String.toList_eq_nil_iff.mp hgap)
    cases tail with
    | nil => exact ⟨[], rfl⟩
    | cons c tail =>
      -- the character is a token of its own
      obtain ⟨symbol, hsymbol⟩ := Token.digest_sign hsign tail
      rw [hsymbol] at htail
      obtain ⟨_, tokens, _, _, htokens⟩ := List.map_eq_cons_iff.mp htail.symm
      exact ⟨tokens, htokens.symm⟩
  | cons c cs =>
    have hblank := hapart.blank'
    rw [hgap, List.all_cons, Bool.and_eq_true] at hblank
    exact ⟨back, (Token.digest_blanks hblank.2 tail).trans htail⟩

end Hole

/-- Another phrase of the same kind can be written in place of one. -/
theorem parse_replace (h : parse text = .ok s) (hw : s.phrases = before ++ w :: after)
    {tokens : List Token} (hkind : v.kind = w.val.kind) (hspelled : Parser.Spelled v tokens)
    (hapart : w.pos.SetApart text gap gap') (hshows : Token.Shows new.toList tokens) :
    ∃ t, parse (w.pos.replace text (gap ++ new ++ gap')) = .ok t ∧
      t.phrases.map (·.val) = before.map (·.val) ++ v :: after.map (·.val) ∧
      t.blank = s.blank := by
  obtain ⟨lead, tail, front, old, back, hhole⟩ := exists_hole h hw
  have hdigest := hhole.digest_eq hapart new
  rw [hshows _ (hhole.head?_behind hapart), Token.digest_blanks hapart.blank', hhole.tail,
    ← List.map_append, ← List.map_append] at hdigest
  obtain ⟨t, ht, hphrases, hblank⟩ := hhole.refill v tokens hkind hspelled
  obtain ⟨place, hparse⟩ := parse_of_significant (Token.tokenize_of_digest hdigest)
  rw [ht] at hparse
  refine ⟨t.move place, hparse, ?_, (blank_move place t).trans hblank⟩
  rw [phrases_move, List.map_map]
  exact hphrases

/-- A text with a lexical fault in place of a phrase, which swallows the character behind it: the
fault is the only one. -/
theorem parse_replace_fault (h : parse text = .ok s) (hw : s.phrases = before ++ w :: after)
    {tokens : List Token} {f : LexicalFault} (hapart : w.pos.SetApart text gap gap')
    (hnew : ∀ rest, rest.head?.all Token.isApart = true → Token.digest (new.toList ++ rest) =
      tokens.map .ok ++ .error f :: Token.digest rest.tail) :
    ∃ report, parse (w.pos.replace text (gap ++ new ++ gap')) = .error report ∧
      report.diagnostics.map (·.code) = [some f.code] := by
  obtain ⟨lead, tail, front, old, back, hhole⟩ := exists_hole h hw
  have hnone (tokens : List Token) : (tokens.map Except.ok).filterMap Token.faultCode? = [] :=
    List.filterMap_eq_nil_iff.mpr (by simp [Token.faultCode?])
  obtain ⟨more, hmore⟩ := hhole.digest_tail hapart
  have hcodes : (Token.digest (w.pos.replace text (gap ++ new ++ gap')).toList).filterMap
      Token.faultCode? = [f.code] := by
    rw [hhole.digest_eq hapart new, hnew _ (hhole.head?_behind hapart), hmore]
    simp [hnone, Token.faultCode?]
  obtain ⟨report, hreport, heq⟩ := Token.tokenize_of_faults (hcodes ▸ List.cons_ne_nil _ _)
  refine ⟨report, ?_, heq.trans (by rw [hcodes]; rfl)⟩
  rw [parse, hreport]
  rfl

end Replace

end Source

end Projection
