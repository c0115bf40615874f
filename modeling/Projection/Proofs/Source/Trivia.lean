import Projection.Proofs.Source.Moving
import Projection.Proofs.Source.Streams
import Projection.Proofs.Token.Tiling

/-!
# Comments and blanks between tokens

A parser reads a tape, on which comments and blanks stand between the tokens that carry meaning, and
skips them before every look at a token. So it does the same as on the tokens that carry meaning
alone (`Source.ofTokens_eq`). Only the numbers of the tokens are others; `Token.numberOf` tells
which.

With the places of the tokens in the text this difference is gone: what is read from a text is what
its significant tokens stand for, each part at its place (`Source.parse_of_tokenize`).
-/

namespace Projection

/-! ### Tapes -/

namespace Token

/-- The number among all tokens that belongs to a number among those that carry meaning. -/
def numberOf : List Token → Nat → Nat
  | [], i => i
  | t :: ts, i =>
    if t.isTrivia then numberOf ts i + 1
    else if i = 0 then 0
    else numberOf ts (i - 1) + 1

theorem numberOf_trivia {t : Token} (ht : t.isTrivia = true) (ts : List Token) (i : Nat) :
    numberOf (t :: ts) i = numberOf ts i + 1 := by
  rw [numberOf, if_pos ht]

theorem numberOf_zero {t : Token} (ht : t.isTrivia = false) (ts : List Token) :
    numberOf (t :: ts) 0 = 0 := by
  rw [numberOf, if_neg (by simp [ht]), if_pos rfl]

theorem numberOf_succ {t : Token} (ht : t.isTrivia = false) (ts : List Token) (i : Nat) :
    numberOf (t :: ts) (i + 1) = numberOf ts i + 1 := by
  rw [numberOf, if_neg (by simp [ht]), if_neg (Nat.succ_ne_zero i), Nat.add_sub_cancel]

/-- A token that carries meaning is found at its number among all tokens. -/
theorem getElem?_numberOf {P : Type} (all : List (Located P Token)) (i : Nat) :
    (all.map (·.pos))[numberOf (all.map (·.val)) i]? =
      ((all.filter fun t => !t.val.isTrivia).map (·.pos))[i]? := by
  induction all generalizing i with
  | nil => rfl
  | cons t all ih =>
    rw [List.map_cons, List.map_cons]
    cases ht : t.val.isTrivia with
    | true =>
      rw [numberOf_trivia ht, List.getElem?_cons_succ, ih, List.filter_cons_of_neg (by simp [ht])]
    | false =>
      rw [List.filter_cons_of_pos (by simp [ht]), List.map_cons]
      cases i with
      | zero => rw [numberOf_zero ht, List.getElem?_cons_zero, List.getElem?_cons_zero]
      | succ i => rw [numberOf_succ ht, List.getElem?_cons_succ, List.getElem?_cons_succ, ih]

end Token

namespace Tape

/-- The cursor has the tokens of the tape that carry meaning, and `f` gives their numbers on the
tape. -/
structure Matches (f : Nat → Nat) (tape : Tape) (c : Cursor) : Prop where
  ahead : c.ahead = tape.ahead.filter fun t => !t.isTrivia
  index : ∀ i, f (c.index + i) = tape.index + Token.numberOf tape.ahead i

theorem Matches.skipFrom {f : Nat → Nat} {c : Cursor} {index : Nat} {ahead : List Token}
    (h : Matches f ⟨ahead, index⟩ c) : Matches f (skipFrom index ahead) c := by
  induction ahead generalizing index with
  | nil => exact h
  | cons t ts ih =>
    rw [Tape.skipFrom]
    split
    · rename_i ht
      refine ih ⟨?_, fun i => ?_⟩
      · rw [h.ahead, List.filter_cons_of_neg (by simp [ht])]
      · rw [h.index, Token.numberOf_trivia ht]
        exact (Nat.succ_add_eq_add_succ index _).symm
    · exact h

theorem isTrivia_of_skipFrom {index : Nat} {ahead : List Token} {t : Token} {ts : List Token}
    (h : (skipFrom index ahead).ahead = t :: ts) : t.isTrivia = false := by
  induction ahead generalizing index with
  | nil => cases h
  | cons u us ih =>
    rw [skipFrom] at h
    split at h
    · exact ih h
    · rename_i hu
      cases h
      exact Bool.eq_false_iff.mpr hu

/-- At a token that carries meaning, or at their end, the tape and the cursor see the same. -/
theorem Matches.of_skip {f : Nat → Nat} {tape : Tape} {c : Cursor} (h : Matches f tape.skip c) :
    tape.skip.ahead.head? = c.ahead.head? ∧ tape.skip.index = f c.index ∧
      Matches f ⟨tape.skip.ahead.tail, tape.skip.index + 1⟩ ⟨c.ahead.tail, c.index + 1⟩ := by
  have hindex (i : Nat) : f (c.index + 1 + i) =
      tape.skip.index + Token.numberOf tape.skip.ahead (i + 1) := by
    rw [← h.index, Nat.add_right_comm, Nat.add_assoc]
  cases hskip : tape.skip.ahead with
  | nil =>
    have hahead := h.ahead
    have hzero := h.index 0
    rw [hskip] at hahead hzero hindex
    refine ⟨by rw [hahead]; rfl, hzero.symm, by rw [hahead]; rfl, fun i => ?_⟩
    rw [hindex]
    exact (Nat.succ_add_eq_add_succ _ i).symm
  | cons t ts =>
    have ht := isTrivia_of_skipFrom hskip
    have hahead := h.ahead
    have hzero := h.index 0
    rw [hskip] at hahead hzero hindex
    rw [List.filter_cons_of_pos (by simp [ht])] at hahead
    rw [Token.numberOf_zero ht] at hzero
    refine ⟨by rw [hahead]; rfl, hzero.symm, by rw [hahead]; rfl, fun i => ?_⟩
    rw [hindex, Token.numberOf_succ ht]
    exact (Nat.succ_add_eq_add_succ _ _).symm

/-- Comments and blanks do not matter to what is seen of a tape. -/
theorem simulates (f : Nat → Nat) : Simulates f (Matches f) where
  head? h := h.skipFrom.of_skip.1
  index h := h.skipFrom.of_skip.2.1
  tail h := h.skipFrom.of_skip.2.2
  remaining h := congrArg List.length h.ahead.symm

end Tape

/-- **A parser that skips comments and blanks reads the tokens between them.** -/
theorem Source.ofTokens_eq (tokens : List Token) :
    ofTokens tokens =
      match ofSignificant (tokens.filter fun t => !t.isTrivia) with
      | .ok s => .ok (s.move (.renumber (Token.numberOf tokens)))
      | .error fault => .error (fault.move (.renumber (Token.numberOf tokens))) := by
  have hstart : Tape.Matches (Token.numberOf tokens) ⟨tokens, 0⟩
      ⟨tokens.filter fun t => !t.isTrivia, 0⟩ :=
    ⟨rfl, fun i => by rw [Nat.zero_add, Nat.zero_add]⟩
  have hsource := Parser.tracks_source (Tape.simulates _) _ _ hstart
  rw [ofTokens, ofSignificant]
  generalize (Parser.source : ParserOn Tape _) _ = result,
    (Parser.source : Parser _) _ = result' at hsource ⊢
  cases hsource with
  | ok s _ => rfl
  | error fault => rfl

theorem Token.numberOf_of_forall {tokens : List Token} (h : ∀ t ∈ tokens, t.isTrivia = false) :
    numberOf tokens = id := by
  funext i
  induction tokens generalizing i with
  | nil => rfl
  | cons t ts ih =>
    obtain ⟨ht, hts⟩ := List.forall_mem_cons.mp h
    cases i with
    | zero => exact numberOf_zero ht ts
    | succ i => exact (numberOf_succ ht ts i).trans (congrArg (· + 1) (ih hts i))

theorem Token.isTrivia_of_mem_significant {P : Type} {all : List (Located P Token)} {t : Token}
    (h : t ∈ significant all) : t.isTrivia = false := by
  obtain ⟨u, hu, rfl⟩ := List.mem_map.mp h
  simpa using (List.mem_filter.mp hu).2

/-- Where there are no comments and blanks, none are skipped. -/
theorem Source.ofTokens_significant {P : Type} (all : List (Located P Token)) :
    ofTokens (Token.significant all) = ofSignificant (Token.significant all) := by
  have hnone : ∀ t ∈ Token.significant all, t.isTrivia = false :=
    fun _ => Token.isTrivia_of_mem_significant
  have hrenumber : TokenRange.renumber id = id := rfl
  rw [ofTokens_eq, Token.numberOf_of_forall hnone, hrenumber,
    List.filter_eq_self.mpr fun t ht => by rw [hnone t ht]; rfl]
  cases ofSignificant (Token.significant all) with
  | ok s => exact congrArg Except.ok s.move_id
  | error fault => exact congrArg Except.error fault.move_id

/-! ### Texts -/

/-- A range of the tokens that carry meaning has its place among all tokens. -/
theorem TokenRange.span_renumber (all : List (Located Span Token)) (r : TokenRange) :
    (r.renumber (Token.numberOf (all.map (·.val)))).span (all.map (·.pos)).toArray =
      r.span ((all.filter fun t => !t.val.isTrivia).map (·.pos)).toArray := by
  simp only [span, renumber, Array.getD_eq_getD_getElem?, List.getElem?_toArray,
    Token.getElem?_numberOf]

/-- The last token ends where the text does. -/
theorem Token.stop_getLast?_of_tokenize {text : String} {all : List (Located Span Token)}
    (h : tokenize text = .ok all) :
    (all.getLast?.map (·.pos.stop)).getD 0 = text.utf8ByteSize := by
  have htiles := tiles_of_tokenize h
  rw [← byteSize_toList]
  cases hlast : all.getLast? with
  | none =>
    rw [htiles.eq_nil_iff.mp (List.getLast?_eq_none_iff.mp hlast)]
    rfl
  | some t => exact (htiles.stop_last hlast).trans (Nat.zero_add _)

/-- What is read from the tokens of a text: the source that the significant ones stand for, placed
in the text, or their fault. -/
theorem Source.parse_of_tokenize {text : String} {all : List (Located Span Token)}
    (h : Token.tokenize text = .ok all) :
    let place := TokenRange.span ((all.filter fun t => !t.val.isTrivia).map (·.pos)).toArray
    parse text =
      match ofSignificant (Token.significant all) with
      | .ok s => .ok (s.move place)
      | .error fault => .error ⟨[(fault.move place).diagnostic text.utf8ByteSize]⟩ := by
  intro place
  have hplace : TokenRange.span (all.map (·.pos)).toArray ∘
      TokenRange.renumber (Token.numberOf (all.map (·.val))) = place :=
    funext (TokenRange.span_renumber all)
  have htokens : (all.map (·.val)).filter (fun t => !t.isTrivia) = Token.significant all :=
    List.filter_map
  have htape := ofTokens_eq (all.map (·.val))
  rw [htokens] at htape
  rw [parse, h, ← Token.stop_getLast?_of_tokenize h]
  simp only [bind, Except.bind, htape]
  cases ofSignificant (Token.significant all) with
  | ok s => simp only [move_move, hplace]
  | error fault => simp only [SyntaxFault.move_move, hplace]

/-- A text that is read has no lexical faults, and its significant tokens stand for a source. -/
theorem Source.exists_of_parse {text : String} {s : Source Span} (h : parse text = .ok s) :
    ∃ all found, Token.tokenize text = .ok all ∧ ofSignificant (Token.significant all) = .ok found ∧
      s = found.move
        (TokenRange.span ((all.filter fun t => !t.val.isTrivia).map (·.pos)).toArray) := by
  obtain ⟨all, hall, _⟩ := bind_eq_ok.mp h
  rw [parse_of_tokenize hall] at h
  cases hfound : ofSignificant (Token.significant all) with
  | ok found =>
    rw [hfound] at h
    cases h
    exact ⟨all, found, hall, hfound, rfl⟩
  | error fault =>
    rw [hfound] at h
    cases h

end Projection
