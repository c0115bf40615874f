import Projection.Proofs.Token.Tiling

/-!
# Changing a text between its tokens

What is read before a token and behind it does not depend on the token, if there are blanks or signs
around what is put in its place (`Span.SetApart`). `Token.digest` is what a text comes to: its
faults, and its tokens without comments and blanks. Blanks at its head leave it as it is
(`Token.digest_blanks`), and so the tokens up to some place in a text are read alike before any text
that starts with a blank, and behind a sign before any text at all (`Token.Scanned.cut`).

A token is read up to the first character that does not go on with it, and `Token.EndsAt` says which
these are.
-/

namespace Projection

namespace Token

/-! ### What a text comes to -/

/-- A fault, or a token that carries meaning. -/
def isNotable : Except LexicalFault Token → Bool
  | .ok t => !t.isTrivia
  | .error _ => true

/-- The faults of a text and the tokens that carry meaning, in their order. -/
def digest (cs : List Char) : List (Except LexicalFault Token) :=
  ((pieces 0 0 cs).map (·.val)).filter isNotable

section Digest

variable {c : Char} {cs piece rest : List Char} {t : Token} {tokens : List Token} {text : String}

theorem map_val_pieces (offset offset' skip : Nat) (cs : List Char) :
    (pieces offset skip cs).map (·.val) = (pieces offset' skip cs).map (·.val) := by
  induction cs generalizing offset offset' skip with
  | nil => cases skip <;> rfl
  | cons c cs ih =>
    cases skip with
    | succ skip => exact ih _ _ skip
    | zero =>
      rw [pieces, pieces]
      split
      · exact congrArg (List.cons _) (ih _ _ _)
      · exact congrArg (List.cons _) (ih _ _ _)

theorem filter_pieces (offset skip : Nat) (cs : List Char) :
    ((pieces offset skip cs).map (·.val)).filter isNotable = digest (cs.drop skip) := by
  rw [pieces_skip, map_val_pieces _ 0 0]
  rfl

theorem digest_token (hne : piece ≠ []) (h : scan (piece ++ rest) = .token t piece.length) :
    digest (piece ++ rest) = [.ok t].filter isNotable ++ digest rest := by
  rw [digest, pieces_token 0 hne h, List.map_cons, ← List.singleton_append, List.filter_append,
    filter_pieces]
  rfl

theorem digest_fault {f : LexicalFault} {lead marked : Nat}
    (h : scan (c :: cs) = .fault f lead marked) :
    digest (c :: cs) = .error f :: digest (cs.drop (lead + marked)) := by
  rw [digest, pieces, h]
  dsimp only
  rw [List.map_cons, List.filter_cons_of_pos rfl, filter_pieces]

/-- The code of a fault. -/
def faultCode? : Except LexicalFault Token → Option Code
  | .ok _ => none
  | .error f => some f.code

theorem map_code_faultsOf (found : List (Located Span (Except LexicalFault Token))) :
    (faultsOf found).map (·.code) =
      (((found.map (·.val)).filter isNotable).filterMap faultCode?).map some := by
  induction found with
  | nil => rfl
  | cons p found ih =>
    obtain ⟨val, pos⟩ := p
    cases val with
    | error f => exact congrArg (List.cons _) ih
    | ok t =>
      have hskip : faultsOf (⟨.ok t, pos⟩ :: found) = faultsOf found := rfl
      rw [hskip, ih, List.map_cons, List.filter_cons]
      split <;> rfl

theorem significant_tokensOf (found : List (Located Span (Except LexicalFault Token))) :
    significant (tokensOf found) =
      ((found.map (·.val)).filter isNotable).filterMap Except.toOption := by
  induction found with
  | nil => rfl
  | cons p found ih =>
    obtain ⟨val, pos⟩ := p
    cases val with
    | error f => exact ih
    | ok t =>
      have hcons : tokensOf (⟨.ok t, pos⟩ :: found) = ⟨t, pos⟩ :: tokensOf found := rfl
      rw [hcons, significant, List.map_cons, List.filter_cons, List.filter_cons, isNotable]
      split
      · exact congrArg (List.cons t) ih
      · exact ih

/-- A text that comes to tokens is split into these. -/
theorem tokenize_of_digest (h : digest text.toList = tokens.map .ok) :
    (tokenize text).map significant = .ok tokens := by
  have hcodes := map_code_faultsOf (pieces 0 0 text.toList)
  have hnone : (tokens.map Except.ok).filterMap faultCode? = [] :=
    List.filterMap_eq_nil_iff.mpr (by simp [faultCode?])
  have htokens := significant_tokensOf (pieces 0 0 text.toList)
  rw [← digest, h] at hcodes htokens
  rw [hnone] at hcodes
  have hfaults := List.map_eq_nil_iff.mp hcodes
  have hsome : (tokens.map (Except.ok (ε := LexicalFault))).filterMap Except.toOption = tokens := by
    rw [List.filterMap_map]
    exact List.filterMap_some
  rw [tokenize, hfaults]
  exact congrArg Except.ok (htokens.trans hsome)

/-- The faults that a text comes to are reported, in their order. -/
theorem tokenize_of_faults (h : (digest text.toList).filterMap faultCode? ≠ []) :
    ∃ report, tokenize text = .error report ∧ report.diagnostics.map (·.code) =
      ((digest text.toList).filterMap faultCode?).map some := by
  have hcodes := map_code_faultsOf (pieces 0 0 text.toList)
  have hne : faultsOf (pieces 0 0 text.toList) ≠ [] := by
    intro hnil
    rw [hnil] at hcodes
    exact h (List.map_eq_nil_iff.mp hcodes.symm)
  refine ⟨⟨faultsOf (pieces 0 0 text.toList)⟩, ?_, hcodes⟩
  rw [tokenize]
  simp [hne]

/-! ### Blanks -/

/-- Blanks other than line ends, up to another character. -/
theorem digest_run {run : List Char} (hrun : run.all (fun c => Text.isBlank c && c != '\n') = true)
    (hrest : rest.head?.all (fun c => !(Text.isBlank c && c != '\n')) = true) :
    digest (run ++ rest) = digest rest := by
  by_cases hne : run = []
  · rw [hne, List.nil_append]
  · rw [digest_token hne (scan_blanks hne hrun hrest)]
    rfl

theorem digest_blank (h : Text.isBlank c = true) (rest : List Char) :
    digest (c :: rest) = digest rest := by
  by_cases hnewline : c = '\n'
  · subst hnewline
    have hscan : scan (['\n'] ++ rest) = .token .newline ['\n'].length := rfl
    exact digest_token (List.cons_ne_nil _ _) hscan
  · -- it joins the blanks behind it, and both runs end at the same place
    have hsplit : rest.takeWhile (fun c => Text.isBlank c && c != '\n') ++
        rest.dropWhile (fun c => Text.isBlank c && c != '\n') = rest :=
      List.takeWhile_append_dropWhile
    have hrun : (rest.takeWhile fun c => Text.isBlank c && c != '\n').all
        (fun c => Text.isBlank c && c != '\n') = true := List.all_takeWhile
    have hrun' : (c :: rest.takeWhile fun c => Text.isBlank c && c != '\n').all
        (fun c => Text.isBlank c && c != '\n') = true := by
      rw [List.all_cons, hrun, h, bne_iff_ne.mpr hnewline]
      rfl
    have hend := head?_dropWhile (p := fun c => Text.isBlank c && c != '\n') rest
    have hlong := digest_run hrun' hend
    have hshort := digest_run hrun hend
    rw [List.cons_append, hsplit] at hlong
    rw [hsplit] at hshort
    rw [hlong, hshort]

/-- Blanks at the head of a text do not count. -/
theorem digest_blanks {gap : List Char} (h : gap.all Text.isBlank = true) (rest : List Char) :
    digest (gap ++ rest) = digest rest := by
  induction gap with
  | nil => rfl
  | cons c gap ih =>
    rw [List.all_cons, Bool.and_eq_true] at h
    rw [List.cons_append, digest_blank h.1, ih h.2]

end Digest

/-! ### Up to a place in a text -/

section Cut

variable {offset : Nat} {cs lead tail : List Char} {t : Token}
  {before after tokens : List (Located Span Token)}

theorem significant_cons (t : Located Span Token) (tokens : List (Located Span Token)) :
    significant (t :: tokens) = [t.val].filter (!·.isTrivia) ++ significant tokens := by
  have hvals : ∀ tokens : List (Located Span Token),
      significant tokens = (tokens.map (·.val)).filter (!·.isTrivia) := by
    intro tokens
    rw [List.filter_map]
    rfl
  rw [hvals, hvals, List.map_cons, ← List.singleton_append, List.filter_append]

theorem notable_ok (t : Token) :
    [Except.ok t].filter isNotable = ([t].filter (!·.isTrivia)).map .ok := by
  rw [← List.map_singleton (f := Except.ok), List.filter_map]
  rfl

theorem Scanned.digest_eq (h : Scanned offset cs tokens) :
    digest cs = (significant tokens).map .ok := by
  induction h with
  | nil => rfl
  | @cons offset piece rest t tokens hstands hbefore hends _ ih =>
    rw [digest_token hstands.nonempty (hbefore.scanned rest hends), ih, significant_cons,
      List.map_append, notable_ok]

theorem ne_of_isBlank {c d : Char} (h : Text.isBlank c = true) (hd : Text.isBlank d = false) :
    c ≠ d := by
  rintro rfl
  rw [h] at hd
  cases hd

/-- A blank goes on with no token but blanks and line comments. -/
theorem endsAt_of_isBlank {c : Char} (hc : Text.isBlank c = true) (ht : t ≠ .blank)
    (hcomment : ∀ body, t ≠ .lineComment body) (rest : List Char) : EndsAt t (c :: rest) := by
  have hword : isWordChar c = false := isWordChar_of_isBlank hc
  cases t with
  | keyword k => exact hword
  | word name => exact hword
  | decimal value => exact hword
  | integer value =>
    refine ⟨hword, fractionDigits_eq_nil ?_⟩
    exact fun hdot => ne_of_isBlank hc (by decide) (Option.some.inj hdot)
  | symbol s =>
    cases s with
    | minus => exact fun hgreater => ne_of_isBlank hc (by decide) (Option.some.inj hgreater)
    | _ => trivial
  | lineComment body => exact absurd rfl (hcomment body)
  | blank => exact absurd rfl ht
  | _ => trivial

/-- Of what follows, a token looks at no more than a point and the character behind it. -/
theorem EndsAt.of_head {d : Char} {more next : List Char} (h : EndsAt t (d :: (lead ++ more)))
    (hd : d = '.' → lead = [] → next.head?.any Char.isDigit = false) :
    EndsAt t (d :: (lead ++ next)) := by
  cases t with
  | integer value =>
    refine ⟨h.1, ?_⟩
    by_cases hdot : d = '.'
    · subst hdot
      cases lead with
      | nil =>
        have hnext := hd rfl rfl
        cases next with
        | nil => rfl
        | cons c next =>
          have hc : c.isDigit = false := hnext
          simp [fractionDigits, hc]
      | cons e lead => simpa [fractionDigits] using h.2
    · exact fractionDigits_eq_nil fun hhead => hdot (Option.some.inj hhead)
  | symbol s =>
    cases s with
    | minus => exact h
    | _ => trivial
  | _ => exact h

/-- What comes next goes on with nothing before it: it starts with a blank or stands behind a
sign. -/
def Parted (lead next : List Char) : Prop :=
  lead.getLast?.all isSign = true ∨ next.head?.any Text.isBlank = true

theorem Parted.of_append {piece next : List Char} (h : Parted (piece ++ lead) next) :
    Parted lead next := by
  by_cases hlead : lead = []
  · exact .inl (by rw [hlead]; rfl)
  · rwa [Parted, List.getLast?_append_of_ne_nil _ hlead] at h

/-- A token goes on with nothing that is parted from it, unless it is blank. -/
theorem StandsBefore.endsAt_parted {piece next : List Char} (hbefore : StandsBefore piece t)
    (hne : piece ≠ []) (h : EndsAt t (lead ++ tail)) (ht : t ≠ .blank)
    (htail : tail.head?.any (· != '\n') = true) (hparted : Parted (piece ++ lead) next) :
    EndsAt t (lead ++ next) := by
  cases lead with
  | nil =>
    have hcomment : ∀ body, t ≠ .lineComment body := by
      -- a line comment would go on with the tail, which starts with no line end
      rintro body rfl
      cases tail with
      | nil => cases htail
      | cons d tail =>
        have hd : (!(d != '\n')) = true := h
        have hd' : (d != '\n') = true := htail
        rw [hd'] at hd
        cases hd
    rw [List.append_nil] at hparted
    rcases hparted with hsign | hblank
    · have hlast : piece.getLast?.any isSign = true := by
        rw [List.getLast?_eq_some_getLast hne] at hsign ⊢
        exact hsign
      rcases hbefore.sign hlast with ⟨body, hbody⟩ | hends
      · exact absurd hbody (hcomment body)
      · exact hends next
    · cases next with
      | nil => cases hblank
      | cons c next => exact endsAt_of_isBlank hblank ht hcomment next
  | cons d lead =>
    refine EndsAt.of_head h fun hd hlead => ?_
    subst hd hlead
    rcases hparted with hsign | hblank
    · rw [List.getLast?_concat] at hsign
      exact absurd hsign (by decide)
    · cases next with
      | nil => rfl
      | cons c next => exact isDigit_eq_false (isWordChar_of_isBlank hblank)

/-- The tokens up to some place of a text are read alike before anything that is parted from them,
if the next token is no line end. -/
theorem Scanned.cut (h : Scanned offset cs (before ++ after)) :
    ∃ lead tail, cs = lead ++ tail ∧ Tiles offset lead before ∧
      Scanned (offset + byteSize lead) tail after ∧
      ∀ next : List Char, tail.head?.any (· != '\n') = true → Parted lead next →
        digest (lead ++ next) = (significant before).map .ok ++ digest next := by
  induction before generalizing offset cs with
  | nil => exact ⟨[], cs, rfl, .nil, h, fun _ _ _ => rfl⟩
  | cons t before ih =>
    cases h with
    | @cons _ piece rest t _ hstands hbefore hends hrest =>
      obtain ⟨lead, tail, rfl, htiles, hscanned, hdigest⟩ := ih hrest
      refine ⟨piece ++ lead, tail, (List.append_assoc ..).symm, .cons hstands htiles, ?_, ?_⟩
      · rwa [byteSize_append, ← Nat.add_assoc]
      · intro next htail hparted
        rw [List.append_assoc, significant_cons, List.map_append, List.append_assoc,
          ← hdigest next htail hparted.of_append]
        by_cases ht : t = .blank
        · subst ht
          exact digest_blanks (hbefore.blank rfl) _
        · have hends' := hbefore.endsAt_parted hstands.nonempty hends ht htail hparted
          rw [digest_token hstands.nonempty (hbefore.scanned _ hends'), notable_ok]

/-- A token that carries meaning starts with no line end. -/
theorem Scanned.head?_of_significant (h : Scanned offset cs tokens) {t : Located Span Token}
    (ht : tokens.head? = some t) (hsignificant : t.val.isTrivia = false) :
    cs.head?.any (· != '\n') = true := by
  cases h with
  | nil => cases ht
  | @cons _ piece rest u _ hstands hbefore hends _ =>
    cases ht
    cases piece with
    | nil => exact absurd rfl hstands.nonempty
    | cons c piece =>
      refine bne_iff_ne.mpr ?_
      rintro rfl
      have hscan := hstands.scanned
      have hnewline : scan ('\n' :: piece) = .token .newline 1 := rfl
      rw [hnewline] at hscan
      obtain ⟨rfl, _⟩ := Scan.token.inj hscan
      cases hsignificant

end Cut

end Token

/-! ### Another text in place of a span -/

namespace Span

/-- The text up to the span. -/
def before (s : Span) (text : String) : String :=
  String.Pos.Raw.extract text ⟨0⟩ ⟨s.start⟩

/-- The text behind the span. -/
def behind (s : Span) (text : String) : String :=
  String.Pos.Raw.extract text ⟨s.stop⟩ ⟨text.utf8ByteSize⟩

/-- The text with another one in place of what the span cuts out. -/
def replace (s : Span) (text new : String) : String :=
  s.before text ++ new ++ s.behind text

/-- Blanks on both sides set apart what is put in the place of the span. None are needed beside a
sign. -/
structure SetApart (s : Span) (text gap gap' : String) : Prop where
  blank : gap.toList.all Text.isBlank = true
  blank' : gap'.toList.all Text.isBlank = true
  before : gap = "" → (s.before text).toList.getLast?.all Token.isSign = true
  behind : gap' = "" → (s.behind text).toList.head?.all Token.isSign = true

section Around

variable {s : Span} {lead piece tail : String}

theorem before_append (hstart : s.start = lead.utf8ByteSize) :
    s.before (lead ++ piece ++ tail) = lead := by
  have hlead := extract_append "" lead (piece ++ tail)
  simp only [String.utf8ByteSize_empty, Nat.zero_add, String.empty_append,
    ← String.append_assoc] at hlead
  rw [before, hstart, hlead]

theorem behind_append (hstop : s.stop = lead.utf8ByteSize + piece.utf8ByteSize) :
    s.behind (lead ++ piece ++ tail) = tail := by
  have htail := extract_append (lead ++ piece) tail ""
  simp only [String.utf8ByteSize_append, String.append_empty] at htail
  rw [behind, hstop, String.utf8ByteSize_append, String.utf8ByteSize_append, htail]

end Around

end Span

end Projection
