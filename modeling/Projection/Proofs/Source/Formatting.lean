import Mathlib.Data.List.Forall2
import Projection.Proofs.Dto.Position
import Projection.Proofs.Source.Trivia

/-!
# Formatting carries no meaning

Two texts with the same tokens, apart from comments and blanks, are read alike. Either both are
sources, with the same parts at different positions, or both are refused for the same reason. Two
sources with the same parts compile alike in turn, whatever the schema: to the same types, or to
faults with the same code, wording and help.

`Source.bare` forgets the positions of a source, so "the same parts" is equality after `bare`. Two
diagnostics *agree* if they differ at most in the spans of their labels.
-/

namespace Projection

variable {P Q R : Type}

/-! ### Diagnostics that agree -/

/-- The diagnostics say the same, and their labels do, though they may stand elsewhere. -/
structure Diagnostic.Agrees (d e : Diagnostic) : Prop where
  severity : d.severity = e.severity
  code : d.code = e.code
  message : d.message = e.message
  help : d.help = e.help
  remarks : d.labels.map (fun l => (l.message, l.primary)) =
    e.labels.map (fun l => (l.message, l.primary))

theorem SyntaxFault.diagnostic_agrees (f g : P → Span) (m n : Nat) (fault : SyntaxFault P) :
    ((fault.move f).diagnostic m).Agrees ((fault.move g).diagnostic n) := by
  induction fault with
  | within declaration fault ih =>
    refine ⟨ih.severity, ih.code, ?_, ih.help, ih.remarks⟩
    exact congrArg (· ++ " " ++ context declaration) ih.message
  | _ => exact ⟨rfl, rfl, rfl, rfl, rfl⟩

theorem Fault.marks_move (f : P → Q) (fault : Fault P) :
    (fault.move f).marks = (fault.marks.1.move f, fault.marks.2.map (·.move f)) := by
  induction fault with
  | within declaration fault ih => exact ih
  | _ => rfl

/-- The labels of a fault as they are without their spans. -/
theorem Fault.remarks_diagnostic (a : Fault Span) :
    a.diagnostic.labels.map (fun l => (l.message, l.primary)) =
      (a.marks.1.val, true) :: (a.marks.2.map fun o => (o.val, false)).toList := by
  cases hother : a.marks.2 <;> simp [diagnostic, hother]

/-- Faults that are the same apart from positions agree. -/
theorem Fault.diagnostic_agrees {a b : Fault Span}
    (h : a.move nowhere = b.move nowhere) : a.diagnostic.Agrees b.diagnostic := by
  have hcode : a.code = b.code := by
    rw [← code_move nowhere a, h, code_move]
  have hmessage : a.message = b.message := by
    rw [← message_move nowhere a, h, message_move]
  have hhelp : a.help = b.help := by
    rw [← help_move nowhere a, h, help_move]
  have hmarks := congrArg Fault.marks h
  rw [marks_move, marks_move, Prod.mk.injEq] at hmarks
  have hmain : a.marks.1.val = b.marks.1.val :=
    congrArg (fun main : Located Unit String => main.val) hmarks.1
  have hother := congrArg (Option.map fun o : Located Unit String => (o.val, false)) hmarks.2
  rw [Option.map_map, Option.map_map] at hother
  refine ⟨rfl, congrArg some hcode, hmessage, hhelp, ?_⟩
  rw [remarks_diagnostic, remarks_diagnostic, hmain]
  exact congrArg (fun other => (b.marks.1.val, true) :: other.toList) hother

/-! ### Sources with the same parts -/

/-- The sources compile to the same types, or have faults that agree. -/
inductive Source.CompileAlike :
    Except (Fault Span) (List Dto) → Except (Fault Span) (List Dto) → Prop
  | types (types : List Dto) : CompileAlike (.ok types) (.ok types)
  | faults {a b : Fault Span} :
      a.diagnostic.Agrees b.diagnostic → CompileAlike (.error a) (.error b)

/-- Sources that differ in positions only compile to the same types, or have faults that differ in
positions only. -/
theorem Source.compile_cases_of_bare_eq {s : Source P} {t : Source Q} (h : s.bare = t.bare)
    (schema : Schema) (defaults : Defaults) :
    (∃ types, s.compile schema defaults = .ok types ∧ t.compile schema defaults = .ok types) ∨
      ∃ fault fault', s.compile schema defaults = .error fault ∧
        t.compile schema defaults = .error fault' ∧ fault.move nowhere = fault'.move nowhere := by
  have hresults : relocate nowhere id (s.compile schema defaults) =
      relocate nowhere id (t.compile schema defaults) := by
    rw [← compile_move, ← compile_move]
    exact congrArg (·.compile schema defaults) h
  generalize s.compile schema defaults = result, t.compile schema defaults = result' at hresults ⊢
  match result, result' with
  | .ok types, .ok types' =>
    obtain rfl : types = types' := Except.ok.inj hresults
    exact .inl ⟨types, rfl, rfl⟩
  | .error fault, .error fault' => exact .inr ⟨fault, fault', rfl, rfl, Except.error.inj hresults⟩

/-- Sources that differ in positions only compile alike. -/
theorem Source.compileAlike_of_bare_eq {s t : Source Span} (h : s.bare = t.bare)
    (schema : Schema) (defaults : Defaults) :
    CompileAlike (s.compile schema defaults) (t.compile schema defaults) := by
  rcases compile_cases_of_bare_eq h schema defaults with
    ⟨types, hs, ht⟩ | ⟨fault, fault', hs, ht, hmove⟩
  · rw [hs, ht]
    exact .types types
  · rw [hs, ht]
    exact .faults (Fault.diagnostic_agrees hmove)

/-! ### Texts with the same tokens -/

/-- Both texts are read, with the same parts, and compile alike under every schema; or both are
refused, and the diagnostics agree one by one. -/
inductive Source.ReadAlike :
    Except Report (Source Span) → Except Report (Source Span) → Prop
  | read {s t : Source Span} (parts : s.bare = t.bare)
      (compile : ∀ schema defaults,
        CompileAlike (s.compile schema defaults) (t.compile schema defaults)) :
      ReadAlike (.ok s) (.ok t)
  | refused {r q : Report}
      (diagnostics : List.Forall₂ Diagnostic.Agrees r.diagnostics q.diagnostics) :
      ReadAlike (.error r) (.error q)

/-- What is read from a text without lexical faults depends on its significant tokens alone, but for
the places of the parts. -/
theorem Source.parse_of_significant {text : String} {tokens : List Token}
    (h : (Token.tokenize text).map Token.significant = .ok tokens) :
    ∃ place : TokenRange → Span, parse text =
      match ofSignificant tokens with
      | .ok s => .ok (s.move place)
      | .error fault => .error ⟨[(fault.move place).diagnostic text.utf8ByteSize]⟩ := by
  cases hall : Token.tokenize text with
  | error report =>
    rw [hall] at h
    cases h
  | ok all =>
    rw [hall] at h
    obtain rfl : Token.significant all = tokens := Except.ok.inj h
    exact ⟨_, parse_of_tokenize hall⟩

/-- **Formatting is irrelevant to meaning.** Texts whose tokens are the same, apart from comments
and blanks, are read alike. -/
theorem Source.parse_readAlike {a b : String} {tokens : List Token}
    (ha : (Token.tokenize a).map Token.significant = .ok tokens)
    (hb : (Token.tokenize b).map Token.significant = .ok tokens) :
    ReadAlike (parse a) (parse b) := by
  obtain ⟨f, hparseA⟩ := parse_of_significant ha
  obtain ⟨g, hparseB⟩ := parse_of_significant hb
  rw [hparseA, hparseB]
  cases ofSignificant tokens with
  | ok s =>
    have hparts : (s.move f).bare = (s.move g).bare := by
      rw [bare_move, bare_move]
    exact .read hparts (compileAlike_of_bare_eq hparts)
  | error fault =>
    exact .refused (.cons (fault.diagnostic_agrees f g _ _) .nil)

/-- A text on two lines with a comment, and the same without blanks. -/
theorem Source.parse_readAlike_layouts :
    let loose := "export E; // staff\nT \x7b #all \x7d"
    let dense := "export E;T\x7b#all\x7d"
    let tokens := [.keyword .exportWord, .word "E", .symbol .semicolon, .word "T",
      .symbol .leftBrace, .symbol .hash, .word "all", .symbol .rightBrace]
    (Token.tokenize loose).map Token.significant = .ok tokens ∧
      (Token.tokenize dense).map Token.significant = .ok tokens ∧
      ReadAlike (parse loose) (parse dense) := by
  intro loose dense tokens
  have hloose : (Token.tokenize loose).map Token.significant = .ok tokens := by decide +kernel
  have hdense : (Token.tokenize dense).map Token.significant = .ok tokens := by decide +kernel
  exact ⟨hloose, hdense, parse_readAlike hloose hdense⟩

end Projection
