import Projection.Token.Lexer

/-!
# Where tokens and faults stand

Tokens and faults are found at bytes of the source. The lexer counts characters, and a fault may
show far behind the head of the text that is scanned, at its end, or inside a character of several
bytes; still the span of each piece ends within the source (`stop_le_of_mem_pieces`).

After a fault the lexer goes on behind the character at which the fault showed, so that no later
piece starts before it: the faults of a source stand in order (`pairwise_pieces`).
-/

namespace Projection

namespace Token

/-! ### Bytes and characters -/

theorem byteSize_cons (c : Char) (cs : List Char) : byteSize (c :: cs) = c.utf8Size + byteSize cs :=
  rfl

theorem byteSize_take_le (n : Nat) (cs : List Char) : byteSize (cs.take n) ≤ byteSize cs := by
  induction cs generalizing n with
  | nil => simp
  | cons c cs ih =>
    cases n with
    | zero => exact Nat.zero_le _
    | succ n =>
      rw [List.take_succ_cons, byteSize_cons, byteSize_cons]
      exact Nat.add_le_add_left (ih n) _

/-- More characters have more bytes. -/
theorem byteSize_take_lt {m n : Nat} {cs : List Char} (hmn : m < n) (hm : m < cs.length) :
    byteSize (cs.take m) < byteSize (cs.take n) := by
  induction cs generalizing m n with
  | nil => cases hm
  | cons c cs ih =>
    obtain ⟨n, rfl⟩ : ∃ k, n = k + 1 := ⟨n - 1, by omega⟩
    rw [List.take_succ_cons, byteSize_cons]
    cases m with
    | zero =>
      have hpos := c.utf8Size_pos
      exact Nat.add_pos_left hpos _
    | succ m =>
      rw [List.take_succ_cons, byteSize_cons]
      exact Nat.add_lt_add_left (ih (Nat.lt_of_succ_lt_succ hmn) (Nat.lt_of_succ_lt_succ hm)) _

theorem size_utf8Encode (cs : List Char) : cs.utf8Encode.size = byteSize cs := by
  induction cs with
  | nil => rfl
  | cons c cs ih =>
    rw [List.utf8Encode_cons, ByteArray.size_append, ih, byteSize_cons, List.utf8Encode_singleton,
      List.size_toByteArray, String.length_utf8EncodeChar]

theorem byteSize_toList (text : String) : byteSize text.toList = text.utf8ByteSize := by
  rw [← size_utf8Encode, String.utf8Encode_toList]
  rfl

/-! ### One scan -/

/-- What a fault marks starts within the text. -/
def Scan.StartsWithin (cs : List Char) : Scan → Prop
  | .fault _ lead _ => lead < cs.length
  | .token .. => True

/-- A backslash that starts no escape is one of the characters. -/
theorem size_scanInside_lt {skip : Nat} {cs : List Char}
    (h : (scanInside skip cs).ending = .badEscape) : (scanInside skip cs).size < cs.length := by
  induction cs generalizing skip with
  | nil => cases h
  | cons c cs ih =>
    cases skip with
    | succ skip => exact Nat.succ_lt_succ (ih h)
    | zero =>
      simp only [scanInside] at h ⊢
      split at h <;> rename_i hquote
      · cases h
      · split at h <;> rename_i hend
        · cases h
        · rw [if_neg hquote, if_neg hend]
          split at h <;> rename_i hbackslash
          · rw [if_pos hbackslash]
            split at h
            · exact Nat.succ_pos _
            · exact Nat.succ_lt_succ (ih h)
          · rw [if_neg hbackslash]
            exact Nat.succ_lt_succ (ih h)

theorem startsWithin_of_scanComment {cs : List Char} {s : Scan} (h : scanComment cs = some s) :
    s.StartsWithin cs := by
  unfold scanComment at h
  split at h
  · cases h
    trivial
  · split at h <;> cases h
    · trivial
    · exact Nat.succ_pos _
  · cases h

theorem startsWithin_of_scanQuoted {cs : List Char} {s : Scan} (h : scanQuoted cs = some s) :
    s.StartsWithin cs := by
  unfold scanQuoted at h
  split at h
  · dsimp only at h
    split at h <;> rename_i hending <;> cases h
    · trivial
    · exact Nat.succ_pos _
    · exact Nat.succ_lt_succ (size_scanInside_lt hending)
  · cases h

theorem startsWithin_of_scanNumber {cs : List Char} {s : Scan} (h : scanNumber cs = some s) :
    s.StartsWithin cs := by
  unfold scanNumber at h
  extract_lets whole rest fraction after value at h
  split at h
  · cases h
  · rename_i hwhole
    split at h
    · split at h <;> cases h
      · trivial
      · cases cs with
        | nil => simp [whole] at hwhole
        | cons c cs => exact Nat.succ_pos _
    · cases h
      trivial

theorem startsWithin_of_scanWord {cs : List Char} {s : Scan} (h : scanWord cs = some s) :
    s.StartsWithin cs := by
  simp only [scanWord] at h
  split at h <;> cases h
  trivial

theorem startsWithin_of_scanSymbol {cs : List Char} {s : Scan} (h : scanSymbol cs = some s) :
    s.StartsWithin cs := by
  unfold scanSymbol at h
  split at h
  · cases h
    trivial
  · obtain ⟨symbol, _, rfl⟩ := Option.map_eq_some_iff.mp h
    trivial
  · cases h

theorem startsWithin_of_scanBlank {cs : List Char} {s : Scan} (h : scanBlank cs = some s) :
    s.StartsWithin cs := by
  unfold scanBlank at h
  split at h
  · cases h
    trivial
  · dsimp only at h
    split at h <;> cases h
    trivial

theorem startsWithin_scan (c : Char) (cs : List Char) :
    (scan (c :: cs)).StartsWithin (c :: cs) := by
  rw [scan]
  cases hfound : scanComment (c :: cs) <|> scanQuoted (c :: cs) <|> scanNumber (c :: cs) <|>
      scanWord (c :: cs) <|> scanSymbol (c :: cs) <|> scanBlank (c :: cs) with
  | none => exact Nat.succ_pos _
  | some s =>
    simp only [Option.orElse_eq_orElse, Option.orElse_eq_or, Option.or_eq_some_iff] at hfound
    rcases hfound with h | ⟨_, h | ⟨_, h | ⟨_, h | ⟨_, h | ⟨_, h⟩⟩⟩⟩⟩
    · exact startsWithin_of_scanComment h
    · exact startsWithin_of_scanQuoted h
    · exact startsWithin_of_scanNumber h
    · exact startsWithin_of_scanWord h
    · exact startsWithin_of_scanSymbol h
    · exact startsWithin_of_scanBlank h

theorem lead_lt_of_scan {c : Char} {cs : List Char} {f : LexicalFault} {lead marked : Nat}
    (h : scan (c :: cs) = .fault f lead marked) : lead < (c :: cs).length := by
  have hwithin := startsWithin_scan c cs
  rw [h] at hwithin
  exact hwithin

/-! ### All pieces -/

variable {offset skip : Nat} {cs : List Char} {p : Located Span (Except LexicalFault Token)}

/-- No piece starts within what was dealt with before. -/
theorem start_ge_of_mem_pieces (hp : p ∈ pieces offset skip cs) :
    offset + byteSize (cs.take skip) ≤ p.pos.start := by
  induction cs generalizing offset skip with
  | nil => cases hp
  | cons c cs ih =>
    cases skip with
    | succ skip =>
      rw [List.take_succ_cons, byteSize_cons, ← Nat.add_assoc]
      exact ih hp
    | zero =>
      rw [List.take_zero]
      rw [pieces] at hp
      split at hp <;> rcases List.mem_cons.mp hp with rfl | hp
      · exact Nat.le_refl _
      · have hstart := ih hp
        exact Nat.le_trans (Nat.le_trans (Nat.le_add_right _ _) (Nat.le_add_right _ _)) hstart
      · exact Nat.le_add_right _ _
      · have hstart := ih hp
        exact Nat.le_trans (Nat.le_trans (Nat.le_add_right _ _) (Nat.le_add_right _ _)) hstart

theorem stop_le_of_mem_pieces (hp : p ∈ pieces offset skip cs) :
    p.pos.stop ≤ offset + byteSize cs := by
  induction cs generalizing offset skip with
  | nil => cases hp
  | cons c cs ih =>
    have hrest {n : Nat} (hp : p ∈ pieces (offset + c.utf8Size) n cs) :
        p.pos.stop ≤ offset + byteSize (c :: cs) := by
      rw [byteSize_cons, ← Nat.add_assoc]
      exact ih hp
    cases skip with
    | succ skip => exact hrest hp
    | zero =>
      rw [pieces] at hp
      split at hp
      · rename_i t size _
        rcases List.mem_cons.mp hp with rfl | hp
        · have htaken := byteSize_take_le size (c :: cs)
          simp only [Span.between]
          omega
        · exact hrest hp
      · rename_i f lead marked hscan
        rcases List.mem_cons.mp hp with rfl | hp
        · -- The mark has a byte even where the fault shows at once: its first character.
          have hstart := byteSize_take_lt (Nat.lt_add_one lead) (lead_lt_of_scan hscan)
          have hnext := byteSize_take_le (lead + 1) (c :: cs)
          have htaken := byteSize_take_le (lead + marked) (c :: cs)
          simp only [Span.between]
          omega
        · exact hrest hp

/-- A fault starts before every later piece. -/
theorem pairwise_pieces : (pieces offset skip cs).Pairwise fun p q =>
    (∃ f, p.val = .error f) → p.pos.start < q.pos.start := by
  induction cs generalizing offset skip with
  | nil => exact .nil
  | cons c cs ih =>
    cases skip with
    | succ skip => exact ih
    | zero =>
      rw [pieces]
      split
      · refine .cons ?_ ih
        rintro q _ ⟨f, hf⟩
        cases hf
      · rename_i f lead marked hscan
        refine .cons ?_ ih
        intro q hq _
        have hq : offset + c.utf8Size + byteSize (cs.take (lead + marked)) ≤ q.pos.start :=
          start_ge_of_mem_pieces hq
        have hlead : byteSize ((c :: cs).take lead) <
            byteSize ((c :: cs).take (lead + marked + 1)) :=
          byteSize_take_lt (by omega) (lead_lt_of_scan hscan)
        rw [List.take_succ_cons, byteSize_cons] at hlead
        simp only [Span.between]
        omega

end Token

end Projection
