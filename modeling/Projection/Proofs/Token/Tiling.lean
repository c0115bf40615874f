import Mathlib.Data.String.Basic
import Projection.Proofs.Token.Standing

/-!
# Tokens tile the source

`Span.Cuts` says what a span cuts out of a text: its two ends are between characters, and a piece of
the text is between them.

A text without lexical faults is a row of pieces, one behind the other from its first byte to its
last, each of which is read as its token on its own (`Token.Tiles`) and ends before the next
(`Token.Scanned`). What holds of all tokens of a text is read from this row by induction.
-/

namespace Projection

/-! ### Slices of a text -/

namespace Span

/-- The span cuts `piece` out of the text. -/
structure Cuts (s : Span) (text piece : String) : Prop where
  start : String.Pos.Raw.IsValid text ⟨s.start⟩
  stop : String.Pos.Raw.IsValid text ⟨s.stop⟩
  slice : String.Pos.Raw.extract text ⟨s.start⟩ ⟨s.stop⟩ = piece

theorem extract_append (before piece after : String) :
    String.Pos.Raw.extract (before ++ piece ++ after) ⟨before.utf8ByteSize⟩
      ⟨before.utf8ByteSize + piece.utf8ByteSize⟩ = piece := by
  have h := String.extract_of_valid before.toList piece.toList after.toList
  simp only [← String.utf8ByteSize_ofList, String.ofList_append, String.ofList_toList] at h
  exact h

/-- Of two heads of a text, the one with fewer bytes is a head of the other. -/
theorem exists_append_of_size_le {before after before' after' : String}
    (h : before ++ after = before' ++ after')
    (hle : before.utf8ByteSize ≤ before'.utf8ByteSize) : ∃ middle, before' = before ++ middle := by
  have hlists := congrArg String.toList h
  rw [String.toList_append, String.toList_append] at hlists
  rcases List.append_eq_append_iff.mp hlists with ⟨middle, hmiddle, _⟩ | ⟨middle, hmiddle, _⟩
  · refine ⟨String.ofList middle, String.toList_injective ?_⟩
    rw [hmiddle, String.toList_append, String.toList_ofList]
  · have heq : before = before' ++ String.ofList middle := by
      refine String.toList_injective ?_
      rw [hmiddle, String.toList_append, String.toList_ofList]
    have hsize := congrArg String.utf8ByteSize heq
    rw [String.utf8ByteSize_append] at hsize
    have hempty : String.ofList middle = "" := String.utf8ByteSize_eq_zero_iff.mp (by omega)
    exact ⟨"", by rw [heq, hempty, String.append_empty, String.append_empty]⟩

/-- What is cut out has the rest of the text around it. -/
theorem cuts_iff {s : Span} {text piece : String} :
    s.Cuts text piece ↔ ∃ before after, text = before ++ piece ++ after ∧
      s.start = before.utf8ByteSize ∧ s.stop = before.utf8ByteSize + piece.utf8ByteSize := by
  constructor
  · rintro ⟨hstart, hstop, hslice⟩
    obtain ⟨before, rest, htext, hbefore⟩ := String.Pos.Raw.isValid_iff_exists_append.mp hstart
    obtain ⟨upTo, after, htext', hupTo⟩ := String.Pos.Raw.isValid_iff_exists_append.mp hstop
    have hstart : s.start = before.utf8ByteSize := congrArg String.Pos.Raw.byteIdx hbefore
    have hstop : s.stop = upTo.utf8ByteSize := congrArg String.Pos.Raw.byteIdx hupTo
    have hle : before.utf8ByteSize ≤ upTo.utf8ByteSize := hstart ▸ hstop ▸ s.ordered
    obtain ⟨middle, rfl⟩ := exists_append_of_size_le (htext.symm.trans htext') hle
    rw [String.utf8ByteSize_append] at hstop
    rw [hstart, hstop, htext', extract_append] at hslice
    exact ⟨before, after, hslice ▸ htext', hstart, hslice ▸ hstop⟩
  · rintro ⟨before, after, rfl, hstart, hstop⟩
    refine ⟨?_, ?_, ?_⟩
    · rw [hstart]
      exact String.Pos.Raw.isValid_iff_exists_append.mpr
        ⟨before, piece ++ after, String.append_assoc, rfl⟩
    · rw [hstop, ← String.utf8ByteSize_append]
      exact String.Pos.Raw.isValid_iff_exists_append.mpr ⟨before ++ piece, after, rfl, rfl⟩
    · rw [hstart, hstop]
      exact extract_append before piece after

theorem Cuts.lt {s : Span} {text piece : String} (h : s.Cuts text piece) (hne : piece ≠ "") :
    s.start < s.stop := by
  obtain ⟨before, after, _, hstart, hstop⟩ := cuts_iff.mp h
  have hsize : piece.utf8ByteSize ≠ 0 := fun hzero => hne (String.utf8ByteSize_eq_zero_iff.mp hzero)
  omega

/-- Two spans together cut out their pieces with what is between them. -/
theorem Cuts.union {s t : Span} {text first second : String} (hs : s.Cuts text first)
    (ht : t.Cuts text second) (hle : s.stop ≤ t.start) :
    ∃ middle, (s.union t).Cuts text (first ++ middle ++ second) := by
  obtain ⟨before, rest, htext, hstart, hstop⟩ := cuts_iff.mp hs
  obtain ⟨upTo, after, htext', hstart', hstop'⟩ := cuts_iff.mp ht
  have hsize : (before ++ first).utf8ByteSize ≤ upTo.utf8ByteSize := by
    rw [String.utf8ByteSize_append]
    omega
  have hheads : before ++ first ++ rest = upTo ++ (second ++ after) := by
    rw [← htext, htext', String.append_assoc]
  obtain ⟨middle, rfl⟩ := exists_append_of_size_le hheads hsize
  refine ⟨middle, cuts_iff.mpr ⟨before, after, ?_, ?_, ?_⟩⟩
  · rw [htext']
    simp only [String.append_assoc]
  · simp only [Span.union]
    omega
  · simp only [String.utf8ByteSize_append] at hstop' ⊢
    simp only [Span.union]
    omega

end Span

namespace Token

/-! ### All tokens of a text -/

/-- The tokens tile the characters, which stand in their source from the byte `offset` on. -/
inductive Tiles : Nat → List Char → List (Located Span Token) → Prop
  | nil {offset : Nat} : Tiles offset [] []
  | cons {offset : Nat} {piece rest : List Char} {t : Token} {tokens : List (Located Span Token)} :
      Stands piece t → Tiles (offset + byteSize piece) rest tokens →
      Tiles offset (piece ++ rest) (⟨t, .between offset (offset + byteSize piece)⟩ :: tokens)

/-- The tokens tile the characters, and each ends before what follows it. -/
inductive Scanned : Nat → List Char → List (Located Span Token) → Prop
  | nil {offset : Nat} : Scanned offset [] []
  | cons {offset : Nat} {piece rest : List Char} {t : Token} {tokens : List (Located Span Token)} :
      Stands piece t → StandsBefore piece t → EndsAt t rest →
      Scanned (offset + byteSize piece) rest tokens →
      Scanned offset (piece ++ rest) (⟨t, .between offset (offset + byteSize piece)⟩ :: tokens)

section Tiles

variable {offset skip : Nat} {cs : List Char} {tokens : List (Located Span Token)}

theorem byteSize_append (cs ds : List Char) : byteSize (cs ++ ds) = byteSize cs + byteSize ds := by
  induction cs with
  | nil => exact (Nat.zero_add _).symm
  | cons c cs ih => rw [List.cons_append, byteSize_cons, byteSize_cons, ih, Nat.add_assoc]

theorem scanned_of_pieces (h : faultsOf (pieces offset 0 cs) = []) :
    Scanned offset cs (tokensOf (pieces offset 0 cs)) := by
  -- by the length of the text, since a token takes any number of characters but none
  induction hn : cs.length using Nat.strong_induction_on generalizing offset cs with
  | _ n ih =>
    cases cs with
    | nil => exact .nil
    | cons c cs =>
      cases hscan : scan (c :: cs) with
      | fault f lead marked =>
        rw [pieces, hscan] at h
        cases h
      | token t size =>
        obtain ⟨piece, rest, hcs, rfl, hstands, hends, hbefore⟩ := exists_stands_of_scan hscan
        rw [hcs] at hscan h hn ⊢
        rw [pieces_token offset hstands.nonempty hscan] at h ⊢
        have hshorter : rest.length < n := by
          have hpos := List.length_pos_iff.mpr hstands.nonempty
          rw [← hn, List.length_append]
          omega
        exact .cons hstands hbefore hends (ih rest.length hshorter h rfl)

theorem Scanned.tiles (h : Scanned offset cs tokens) : Tiles offset cs tokens := by
  induction h with
  | nil => exact .nil
  | cons hstands _ _ _ ih => exact .cons hstands ih

theorem Tiles.eq_nil_iff (h : Tiles offset cs tokens) : tokens = [] ↔ cs = [] := by
  cases h with
  | nil => exact ⟨fun _ => rfl, fun _ => rfl⟩
  | @cons _ _ rest _ _ hstands =>
    have hne := List.append_ne_nil_of_left_ne_nil hstands.nonempty rest
    exact ⟨fun h => absurd h (List.cons_ne_nil _ _), fun h => absurd h hne⟩

/-- Each token has a piece of the text of its own. -/
theorem Tiles.exists_piece (h : Tiles offset cs tokens) {t : Located Span Token} (ht : t ∈ tokens) :
    ∃ before piece after, cs = before ++ piece ++ after ∧ Stands piece t.val ∧
      t.pos.start = offset + byteSize before ∧
      t.pos.stop = offset + byteSize before + byteSize piece := by
  induction h with
  | nil => cases ht
  | @cons offset piece rest _ tokens hstands _ ih =>
    rcases List.mem_cons.mp ht with rfl | ht
    · exact ⟨[], piece, rest, rfl, hstands, rfl, Nat.max_eq_right (Nat.le_add_right _ _)⟩
    · obtain ⟨before, own, after, rfl, hown, hstart, hstop⟩ := ih ht
      refine ⟨piece ++ before, own, after, ?_, hown, ?_, ?_⟩
      · simp only [List.append_assoc]
      · rw [hstart, byteSize_append, Nat.add_assoc]
      · rw [hstop, byteSize_append, Nat.add_assoc offset]

theorem Tiles.start_head (h : Tiles offset cs tokens) {t : Located Span Token}
    (ht : tokens.head? = some t) : t.pos.start = offset := by
  cases h with
  | nil => cases ht
  | cons =>
    cases ht
    rfl

theorem Tiles.isChain (h : Tiles offset cs tokens) :
    tokens.IsChain fun t u => u.pos.start = t.pos.stop := by
  induction h with
  | nil => exact .nil
  | @cons offset piece rest t tokens _ htiles ih =>
    cases tokens with
    | nil => exact .singleton _
    | cons u tokens =>
      refine .cons_cons ?_ ih
      rw [htiles.start_head rfl]
      exact (Nat.max_eq_right (Nat.le_add_right _ _)).symm

theorem Tiles.stop_last (h : Tiles offset cs tokens) {t : Located Span Token}
    (ht : tokens.getLast? = some t) : t.pos.stop = offset + byteSize cs := by
  induction h with
  | nil => cases ht
  | @cons offset piece rest _ tokens _ htiles ih =>
    rw [byteSize_append, ← Nat.add_assoc]
    cases htiles with
    | nil =>
      cases ht
      exact Nat.max_eq_right (Nat.le_add_right _ _)
    | cons => exact ih ht

theorem Tiles.pairwise (h : Tiles offset cs tokens) :
    tokens.Pairwise fun t u => t.pos.stop ≤ u.pos.start := by
  induction h with
  | nil => exact .nil
  | @cons offset piece rest _ tokens _ htiles ih =>
    refine .cons (fun u hu => ?_) ih
    obtain ⟨before, _, _, _, _, hstart, _⟩ := htiles.exists_piece hu
    simp only [Span.between]
    omega

end Tiles

section Tokenize

variable {text : String} {tokens : List (Located Span Token)}

theorem scanned_of_tokenize (h : tokenize text = .ok tokens) : Scanned 0 text.toList tokens := by
  simp only [tokenize] at h
  split at h
  · rename_i hfaults
    cases h
    exact scanned_of_pieces (List.isEmpty_iff.mp hfaults)
  · cases h

theorem tiles_of_tokenize (h : tokenize text = .ok tokens) : Tiles 0 text.toList tokens :=
  (scanned_of_tokenize h).tiles

/-- The span of a token cuts out a piece of the text that stands on its own. -/
theorem cuts_of_tokenize (h : tokenize text = .ok tokens) {t : Located Span Token}
    (ht : t ∈ tokens) : ∃ piece, t.pos.Cuts text piece ∧ Stands piece.toList t.val := by
  obtain ⟨before, piece, after, htext, hstands, hstart, hstop⟩ :=
    (tiles_of_tokenize h).exists_piece ht
  have hsize (cs : List Char) : (String.ofList cs).utf8ByteSize = byteSize cs := by
    rw [← byteSize_toList, String.toList_ofList]
  refine ⟨String.ofList piece, Span.cuts_iff.mpr ⟨String.ofList before, String.ofList after,
    ?_, ?_, ?_⟩, ?_⟩
  · rw [← String.ofList_append, ← String.ofList_append, ← htext, String.ofList_toList]
  · rw [hstart, hsize, Nat.zero_add]
  · rw [hstop, hsize, hsize, Nat.zero_add]
  · rwa [String.toList_ofList]

theorem Stands.tokenize_eq {piece : String} {t : Token} (h : Stands piece.toList t) :
    tokenize piece = .ok [⟨t, .between 0 piece.utf8ByteSize⟩] := by
  have hscan : scan (piece.toList ++ []) = .token t piece.toList.length := by
    rw [List.append_nil]
    exact h.scanned
  have hpieces := pieces_token 0 h.nonempty hscan
  rw [List.append_nil, Nat.zero_add, byteSize_toList] at hpieces
  rw [tokenize, hpieces]
  rfl

theorem Stands.ne_empty {piece : String} {t : Token} (h : Stands piece.toList t) : piece ≠ "" :=
  fun hempty => h.nonempty (String.toList_eq_nil_iff.mpr hempty)

theorem Stands.text_eq {piece : String} {t : Token} (h : Stands piece.toList t)
    (ht : t.isVerbatim = true) : t.text = piece := by
  rw [h.verbatim ht, String.ofList_toList]

/-- **Tokens tile the source.** The tokens of a text, if it has no lexical faults, stand one behind
the other from the first byte of the text to its last. The span of each is not empty and cuts out a
piece of the text. A word is what its span cuts out, and what the span of any token cuts out is that
one token when it is split on its own. -/
theorem tokenize_tiles (h : tokenize text = .ok tokens) :
    (tokens = [] ↔ text = "") ∧
      (∀ t, tokens.head? = some t → t.pos.start = 0) ∧
      tokens.IsChain (fun t u => u.pos.start = t.pos.stop) ∧
      (∀ t, tokens.getLast? = some t → t.pos.stop = text.utf8ByteSize) ∧
      ∀ t ∈ tokens, t.pos.start < t.pos.stop ∧
        ∃ piece, t.pos.Cuts text piece ∧ (∀ name, t.val = .word name → piece = name) ∧
          tokenize piece = .ok [⟨t.val, .between 0 piece.utf8ByteSize⟩] := by
  have htiles := tiles_of_tokenize h
  refine ⟨?_, fun t ht => htiles.start_head ht, htiles.isChain, fun t ht => ?_, fun t ht => ?_⟩
  · rw [htiles.eq_nil_iff, String.toList_eq_nil_iff]
  · rw [htiles.stop_last ht, Nat.zero_add, byteSize_toList]
  · obtain ⟨piece, hcuts, hstands⟩ := cuts_of_tokenize h ht
    refine ⟨hcuts.lt hstands.ne_empty, piece, hcuts, fun name hname => ?_, hstands.tokenize_eq⟩
    have htext := hstands.text_eq (by rw [hname]; rfl)
    rw [hname] at htext
    exact htext.symm

/-- The characters of a text need not be of one byte. -/
theorem note_is_tiled :
    let text := "nom->\"café\"//né"
    tokenize text = .ok [⟨.word "nom", .between 0 3⟩, ⟨.symbol .arrow, .between 3 5⟩,
        ⟨.quoted "café", .between 5 12⟩, ⟨.lineComment "né", .between 12 17⟩] ∧
      ∃ piece, (Span.between 5 12).Cuts text piece ∧
        tokenize piece = .ok [⟨.quoted "café", .between 0 piece.utf8ByteSize⟩] := by
  intro text
  have h : tokenize text = .ok [⟨.word "nom", .between 0 3⟩, ⟨.symbol .arrow, .between 3 5⟩,
      ⟨.quoted "café", .between 5 12⟩, ⟨.lineComment "né", .between 12 17⟩] := by decide +kernel
  obtain ⟨_, _, _, _, hpieces⟩ := tokenize_tiles h
  obtain ⟨_, piece, hcuts, _, hagain⟩ := hpieces ⟨.quoted "café", .between 5 12⟩ (by simp)
  exact ⟨h, piece, hcuts, hagain⟩

end Tokenize

end Token

end Projection
