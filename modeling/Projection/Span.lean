/-!
# Spans

A span is a stretch of a source text, given by the byte offsets of its two ends. A value that was
read from a source is `Located`: it carries where it was read. Positions are a parameter of
`Located`, so that a syntax tree can be moved from one kind of position to another.
-/

namespace Projection

/-- The bytes from `start` up to, not including, `stop`. -/
structure Span where
  start : Nat
  stop : Nat
  ordered : start ≤ stop := by omega
  deriving DecidableEq, Repr

namespace Span

/-- The span between two offsets; it is empty if they are out of order. -/
def between (start stop : Nat) : Span where
  start := start
  stop := max start stop

/-- The number of bytes. -/
def length (s : Span) : Nat :=
  s.stop - s.start

/-- The span holds no byte. -/
def isEmpty (s : Span) : Bool :=
  s.start == s.stop

/-- The least span that holds both. -/
def union (s t : Span) : Span where
  start := min s.start t.start
  stop := max s.stop t.stop
  ordered := by have := s.ordered; omega

/-- The two offsets with two dots between them. -/
def text (s : Span) : String :=
  toString s.start ++ ".." ++ toString s.stop

end Span

/-- A value with its position. -/
structure Located (P α : Type) where
  val : α
  pos : P
  deriving DecidableEq, Repr

namespace Located

variable {P Q α β : Type}

/-- The same value at another position. -/
def move (f : P → Q) (x : Located P α) : Located Q α :=
  ⟨x.val, f x.pos⟩

/-- Another value at the same position. -/
def map (f : α → β) (x : Located P α) : Located P β :=
  ⟨f x.val, x.pos⟩

end Located

end Projection
