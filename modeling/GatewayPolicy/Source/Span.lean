/-! # Places in a source text

  A `Span` is a stretch of a text, counted in bytes, together with the line
  and column at which it starts. A `Location` is what a reader of a report
  sees: the file, the line and the column. Offsets are kept in words of 32 bits,
  so in a text of `UInt32.size` bytes or more they start over from zero; lines
  and columns are plain numbers.

  - `Span.cover` joins two spans; it never scans the text again, because the
    line and column are those of the span that starts first.
-/

namespace GatewayPolicy

/-- A stretch of a source text. -/
structure Span where
  /-- Byte offset of the first byte, modulo `UInt32.size`. -/
  start : Nat
  /-- Byte offset one past the last byte, modulo `UInt32.size`. -/
  stop : Nat
  /-- Line of the first byte, from 1. -/
  line : Nat
  /-- Column of the first byte, from 1, counted in characters. -/
  column : Nat
  deriving DecidableEq, Repr, Inhabited

namespace Span

/-- The span over both `a` and `b`, placed at whichever starts first
    (at `a` when they start together). -/
def cover (a b : Span) : Span :=
  if a.start ≤ b.start then { a with stop := max a.stop b.stop }
  else { b with stop := max a.stop b.stop }

/-- Length in bytes; a reversed span has length zero. -/
def length (s : Span) : Nat := s.stop - s.start

/-- A span is empty when it covers no byte. -/
def isEmpty (s : Span) : Bool := s.length == 0

@[simp] theorem cover_start (a b : Span) :
    (a.cover b).start = min a.start b.start := by
  by_cases h : a.start ≤ b.start
  · simp [cover, h]
  · have hb : b.start ≤ a.start := Nat.le_of_lt (Nat.lt_of_not_le h)
    simp [cover, h, Nat.min_eq_right hb]

@[simp] theorem cover_stop (a b : Span) :
    (a.cover b).stop = max a.stop b.stop := by
  unfold cover
  split <;> rfl

end Span

/-- A place named in a report. -/
structure Location where
  file : String
  line : Nat
  column : Nat
  deriving DecidableEq, Repr, Inhabited

/-- A location is written `file(line,column)`. -/
def Location.text (l : Location) : String :=
  s!"{l.file}({l.line},{l.column})"

end GatewayPolicy
