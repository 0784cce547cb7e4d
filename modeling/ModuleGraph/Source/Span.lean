/-!
# Spans

A span is a range of byte offsets in one source file. `length` is the number of bytes between
its ends, and zero when they are the wrong way round.
-/

namespace ModuleGraph

/-- The bytes of a source file from `start` up to, but not including, `stop`. -/
structure Span where
  start : Nat
  stop : Nat
  deriving DecidableEq, Repr, Inhabited

namespace Span

/-- The number of bytes spanned. -/
def length (s : Span) : Nat :=
  s.stop - s.start

/-- No byte is spanned. -/
def isEmpty (s : Span) : Bool :=
  s.length == 0

/-- The empty span at the start of a file, for what has no position. -/
def zero : Span := ⟨0, 0⟩

/-- The span moved on by a number of bytes. -/
def shift (s : Span) (n : Nat) : Span := ⟨s.start + n, s.stop + n⟩

@[simp] theorem length_shift (s : Span) (n : Nat) : (s.shift n).length = s.length := by
  simp only [length, shift]
  omega

end Span

end ModuleGraph
