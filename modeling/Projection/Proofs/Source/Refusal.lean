import Projection.Proofs.Source.Formatting
import Projection.Proofs.Token.Places

/-!
# Reports on sources that are refused

A source is refused for its characters, for its tokens or for what it means. Each report says where
to look: every diagnostic has a label, and every label stands within the text. All lexical faults of
a text are reported, in their order; of the other faults only the first one is.

The parser and the compiler know positions as numbers of tokens, and a parsed source is placed in
its text afterwards (`Source.parse_place`). So it is enough that the place of every range of tokens
is within the text: whatever a later fault points to was placed there (`Source.compile_move`).
-/

namespace Projection

/-- The numbers of the codes for faults in characters, and in tokens. -/
def Code.lexicalNumbers : List String :=
  ["E001", "E002", "E003", "E004", "E005"]

def Code.syntacticNumbers : List String :=
  ["E100", "E101", "E102"]

/-- The code has a number of the second or the third hundred. -/
def Code.IsSemantic (c : Code) : Prop :=
  c.text.toList.take 2 ∈ [['E', '2'], ['E', '3']]

/-- The span stands within a text. -/
def Span.Within (text : String) (s : Span) : Prop :=
  s.start ≤ s.stop ∧ s.stop ≤ text.utf8ByteSize

/-- The diagnostic tells where to look: it has a label, and all its labels stand within the text. -/
structure Diagnostic.PointsInto (text : String) (d : Diagnostic) : Prop where
  labelled : d.labels ≠ []
  within : ∀ l ∈ d.labels, l.span.Within text

/-- The report on a text that was not read. It has either lexical faults, each behind the one
before, or one fault in the tokens. -/
structure Report.RefusesToRead (text : String) (r : Report) : Prop where
  diagnostics_ne_nil : r.diagnostics ≠ []
  pointsInto : ∀ d ∈ r.diagnostics, d.PointsInto text
  stage : ((∀ d ∈ r.diagnostics, ∃ c, d.code = some c ∧ c.text ∈ Code.lexicalNumbers) ∧
      (r.diagnostics.flatMap fun d => d.labels.map (·.span.start)).Pairwise (· < ·)) ∨
    ∃ d c, r.diagnostics = [d] ∧ d.code = some c ∧ c.text ∈ Code.syntacticNumbers

/-- The report on a text that was read and did not compile. -/
structure Report.RefusesToCompile (text : String) (r : Report) : Prop where
  pointsInto : ∀ d ∈ r.diagnostics, d.PointsInto text
  stage : ∃ d c, r.diagnostics = [d] ∧ d.code = some c ∧ c.IsSemantic

/-! ### Faults in characters -/

theorem LexicalFault.text_code_mem (fault : LexicalFault) :
    fault.code.text ∈ Code.lexicalNumbers := by
  cases fault <;> decide

namespace Token

variable {text : String}

theorem within_of_mem_pieces {p : Located Span (Except LexicalFault Token)}
    (hp : p ∈ pieces 0 0 text.toList) : p.pos.Within text := by
  have hstop := stop_le_of_mem_pieces hp
  rw [byteSize_toList, Nat.zero_add] at hstop
  exact ⟨p.pos.ordered, hstop⟩

theorem within_of_tokenize {all : List (Located Span Token)} (h : tokenize text = .ok all)
    {t : Located Span Token} (ht : t ∈ all) : t.pos.Within text := by
  simp only [tokenize] at h
  split at h
  · cases h
    obtain ⟨p, hp, ht⟩ := List.mem_filterMap.mp ht
    split at ht <;> cases ht
    exact within_of_mem_pieces hp
  · cases h

theorem mem_faultsOf {found : List (Located Span (Except LexicalFault Token))} {d : Diagnostic}
    (h : d ∈ faultsOf found) : ∃ p ∈ found, ∃ f : LexicalFault, d = f.diagnostic p.pos := by
  obtain ⟨p, hp, hd⟩ := List.mem_filterMap.mp h
  split at hd <;> cases hd
  exact ⟨p, hp, _, rfl⟩

/-- Each lexical fault has one label, on the piece that it is. -/
theorem starts_faultsOf (found : List (Located Span (Except LexicalFault Token))) :
    ((faultsOf found).flatMap fun d => d.labels.map (·.span.start)) =
      (found.filter fun p => p.val.toOption.isNone).map (·.pos.start) := by
  induction found with
  | nil => rfl
  | cons p found ih =>
    obtain ⟨val, pos⟩ := p
    cases val with
    | ok t => exact ih
    | error f => exact congrArg (pos.start :: ·) ih

theorem pairwise_starts_faultsOf (text : String) :
    ((faultsOf (pieces 0 0 text.toList)).flatMap fun d => d.labels.map (·.span.start)).Pairwise
      (· < ·) := by
  rw [starts_faultsOf, List.pairwise_map, List.pairwise_filter]
  refine pairwise_pieces.imp ?_
  intro p q hlt hp _
  apply hlt
  cases hval : p.val with
  | ok t => simp [hval, Except.toOption] at hp
  | error f => exact ⟨f, rfl⟩

theorem refusesToRead_of_tokenize {report : Report} (h : tokenize text = .error report) :
    report.RefusesToRead text := by
  simp only [tokenize] at h
  split at h <;> rename_i hfaults <;> cases h
  refine ⟨by simpa using hfaults, ?_, .inl ⟨?_, pairwise_starts_faultsOf text⟩⟩
  · intro d hd
    obtain ⟨p, hp, f, rfl⟩ := mem_faultsOf hd
    refine ⟨List.cons_ne_nil _ _, ?_⟩
    intro l hl
    obtain rfl := List.mem_singleton.mp hl
    exact within_of_mem_pieces hp
  · intro d hd
    obtain ⟨p, _, f, rfl⟩ := mem_faultsOf hd
    exact ⟨f.code, rfl, f.text_code_mem⟩

end Token

/-! ### Faults in tokens -/

theorem Span.within_union {text : String} {s t : Span} (hs : s.Within text) (ht : t.Within text) :
    (s.union t).Within text :=
  ⟨(s.union t).ordered, Nat.max_le.mpr ⟨hs.2, ht.2⟩⟩

theorem TokenRange.within_span {text : String} {spans : Array Span}
    (h : ∀ s ∈ spans, s.Within text) (r : TokenRange) : (r.span spans).Within text := by
  have hone (i : Nat) : (spans.getD i (.between 0 0)).Within text := by
    rw [Array.getD_eq_getD_getElem?]
    cases hi : spans[i]? with
    | none => exact ⟨Nat.le_refl _, Nat.zero_le _⟩
    | some s => exact h s (Array.mem_of_getElem? hi)
  exact Span.within_union (hone r.first) (hone r.last)

/-- What is read from a text without lexical faults, placed within the text. -/
theorem Source.parse_place {text : String} {all : List (Located Span Token)}
    (h : Token.tokenize text = .ok all) :
    ∃ place : TokenRange → Span, (∀ r, (place r).Within text) ∧ parse text =
      match ofSignificant (Token.significant all) with
      | .ok s => .ok (s.move place)
      | .error fault => .error ⟨[(fault.move place).diagnostic text.utf8ByteSize]⟩ := by
  refine ⟨TokenRange.span ((all.filter fun t => !t.val.isTrivia).map (·.pos)).toArray, ?_, ?_⟩
  · apply TokenRange.within_span
    intro s hs
    rw [List.mem_toArray] at hs
    obtain ⟨t, ht, rfl⟩ := List.mem_map.mp hs
    exact Token.within_of_tokenize h (List.mem_of_mem_filter ht)
  · exact parse_of_tokenize h

theorem SyntaxFault.code_diagnostic_mem (size : Nat) (fault : SyntaxFault Span) :
    ∃ c, (fault.diagnostic size).code = some c ∧ c.text ∈ Code.syntacticNumbers := by
  induction fault with
  | unexpected found expected => exact ⟨.unexpectedToken, rfl, by decide⟩
  | ended expected => exact ⟨.incompleteInput, rfl, by decide⟩
  | unknownModifier word => exact ⟨.unknownModifier, rfl, by decide⟩
  | within declaration fault ih => exact ih

theorem SyntaxFault.pointsInto_diagnostic {text : String} {place : TokenRange → Span}
    (hplace : ∀ r, (place r).Within text) (fault : SyntaxFault TokenRange) :
    ((fault.move place).diagnostic text.utf8ByteSize).PointsInto text := by
  induction fault with
  | unexpected found expected =>
    refine ⟨List.cons_ne_nil _ _, ?_⟩
    intro l hl
    obtain rfl := List.mem_singleton.mp hl
    exact hplace found.pos
  | ended expected =>
    refine ⟨List.cons_ne_nil _ _, ?_⟩
    intro l hl
    obtain rfl := List.mem_singleton.mp hl
    exact ⟨Nat.le_max_left _ _, Nat.max_le.mpr ⟨Nat.le_refl _, Nat.le_refl _⟩⟩
  | unknownModifier word =>
    refine ⟨List.cons_ne_nil _ _, ?_⟩
    intro l hl
    obtain rfl := List.mem_singleton.mp hl
    exact hplace word.pos
  | within declaration fault ih => exact ⟨ih.labelled, ih.within⟩

/-- **A text that is not read is refused for its characters or for one token.** -/
theorem Source.refusesToRead_of_parse {text : String} {report : Report}
    (h : parse text = .error report) : report.RefusesToRead text := by
  cases htokens : Token.tokenize text with
  | error lexical =>
    rw [parse, htokens] at h
    cases h
    exact Token.refusesToRead_of_tokenize htokens
  | ok all =>
    obtain ⟨place, hplace, hparse⟩ := parse_place htokens
    rw [hparse] at h
    split at h <;> cases h
    rename_i fault _
    refine ⟨List.cons_ne_nil _ _, ?_, .inr ?_⟩
    · intro d hd
      obtain rfl := List.mem_singleton.mp hd
      exact fault.pointsInto_diagnostic hplace
    · obtain ⟨c, hc, hnumber⟩ := (fault.move place).code_diagnostic_mem text.utf8ByteSize
      exact ⟨_, c, rfl, hc, hnumber⟩

/-! ### Faults in what a source means -/

theorem Fault.isSemantic_code {P : Type} (fault : Fault P) : fault.code.IsSemantic := by
  induction fault with
  | within declaration fault ih => exact ih
  | _ => simp [code, Code.IsSemantic, Code.text]

theorem Fault.pointsInto_diagnostic {P : Type} {text : String} {place : P → Span}
    (hplace : ∀ r, (place r).Within text) (fault : Fault P) :
    (fault.move place).diagnostic.PointsInto text := by
  refine ⟨List.cons_ne_nil _ _, ?_⟩
  intro l hl
  rw [Fault.diagnostic, Fault.marks_move] at hl
  rcases List.mem_cons.mp hl with rfl | hl
  · exact hplace _
  · obtain ⟨other, hother, rfl⟩ := Option.map_eq_some_iff.mp (Option.mem_toList.mp hl)
    obtain ⟨mark, _, rfl⟩ := Option.map_eq_some_iff.mp hother
    exact hplace _

/-- **A text that was read and does not compile is refused for one fault.** -/
theorem Source.refusesToCompile_of_compile {text : String} {s : Source Span}
    (hparse : parse text = .ok s) {schema : Schema} {defaults : Defaults} {fault : Fault Span}
    (h : s.compile schema defaults = .error fault) : fault.report.RefusesToCompile text := by
  cases htokens : Token.tokenize text with
  | error lexical =>
    rw [parse, htokens] at hparse
    cases hparse
  | ok all =>
    obtain ⟨place, hplace, hresult⟩ := parse_place htokens
    rw [hresult] at hparse
    split at hparse <;> cases hparse
    rename_i read _
    rw [compile_move] at h
    cases hread : read.compile schema defaults with
    | ok types =>
      rw [hread] at h
      cases h
    | error cause =>
      rw [hread] at h
      cases h
      refine ⟨?_, _, _, rfl, rfl, (cause.move place).isSemantic_code⟩
      intro d hd
      obtain rfl := List.mem_singleton.mp hd
      exact cause.pointsInto_diagnostic hplace

end Projection
