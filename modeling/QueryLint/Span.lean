import QueryLint.Text.Bytes

/-!
QueryLint.Span — a range of byte offsets.

A span never ends before it starts: the inequality is part of the type. Offsets that come from
outside are kept to 32 bits, the width in which files are measured; a range given in reverse is
no span.
-/

namespace QueryLint

/-- The bytes from `start` up to, not including, `stop`. -/
structure Span where
  start : Nat
  stop : Nat
  start_le_stop : start ≤ stop := by omega
  deriving DecidableEq, Repr

namespace Span

/-- The empty span at an offset. -/
def point (offset : Nat) : Span := ⟨offset, offset, Nat.le_refl _⟩

instance : Inhabited Span := ⟨point 0⟩

/-- An offset from outside, kept to 32 bits. -/
def offset32 (n : Nat) : Nat := n % UInt32.size

/-- The span between two offsets from outside; nothing if they are reversed. -/
def ofOffsets? (start stop : Nat) : Option Span :=
  if h : offset32 start ≤ offset32 stop then some ⟨offset32 start, offset32 stop, h⟩ else none

/-- The span between two offsets, or the point at the first if they are reversed. -/
def between (start stop : Nat) : Span :=
  if h : start ≤ stop then ⟨start, stop, h⟩ else point start

/-- Number of bytes. -/
def length (s : Span) : Nat := s.stop - s.start

/-- A span of no bytes. -/
def isEmpty (s : Span) : Bool := s.start == s.stop

/-- The smallest span that holds both. -/
def cover (a b : Span) : Span :=
  ⟨min a.start b.start, max a.stop b.stop, by
    have := a.start_le_stop
    omega⟩

/-- The text a span covers; nothing if it reaches beyond the end or splits a character. -/
def text? (s : Span) (text : String) : Option String :=
  Text.slice? text s.start s.stop

/-- How messages write a span. -/
def display (s : Span) : String :=
  toString s.start ++ ".." ++ toString s.stop

@[simp] theorem start_point (n : Nat) : (point n).start = n := rfl

@[simp] theorem stop_point (n : Nat) : (point n).stop = n := rfl

@[simp] theorem start_between (a b : Nat) : (between a b).start = a := by
  unfold between; split <;> rfl

theorem stop_between (a b : Nat) : (between a b).stop = max a b := by
  unfold between
  split
  · next h => exact (Nat.max_eq_right h).symm
  · next h => simp only [stop_point]; omega

@[simp] theorem start_cover (a b : Span) : (a.cover b).start = min a.start b.start := rfl

@[simp] theorem stop_cover (a b : Span) : (a.cover b).stop = max a.stop b.stop := rfl

theorem isEmpty_iff (s : Span) : s.isEmpty = true ↔ s.start = s.stop := by
  simp [isEmpty]

end Span

end QueryLint
