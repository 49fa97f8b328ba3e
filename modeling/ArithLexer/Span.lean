import ArithLexer.Fault

/-!
# Spans

A span is the half-open range of byte offsets that a piece of source
occupies, with the line and column of its first byte. `Span.join` puts two
spans together into the smallest one that covers both.
-/

namespace ArithLexer

/-- A range of byte offsets and the place where it starts. Lines and columns
count from one; the span that stands for no place has zero in all fields. -/
structure Span where
  start : Nat
  stop : Nat
  line : Nat
  column : Nat
  deriving DecidableEq, Repr

namespace Span

def dummy : Span := ⟨0, 0, 0, 0⟩

instance : Inhabited Span := ⟨dummy⟩

/-- A span that does not end before it starts. -/
def new (start stop line column : Nat) : Except Fault Span :=
  if start ≤ stop then .ok ⟨start, stop, line, column⟩ else .error .reversedSpan

theorem new_of_le {start stop : Nat} (h : start ≤ stop) (line column : Nat) :
    new start stop line column = .ok ⟨start, stop, line, column⟩ := if_pos h

/-- The empty span in front of the byte at `offset`. -/
def point (offset line column : Nat) : Span := ⟨offset, offset, line, column⟩

variable (s : Span)

def isEmpty : Bool := s.start == s.stop

def length : Except Fault Nat :=
  if s.start ≤ s.stop then .ok (s.stop - s.start) else .error .reversedSpan

theorem length_of_le (h : s.start ≤ s.stop) : s.length = .ok (s.stop - s.start) := if_pos h

/-- The offsets alone: the first covered, and the first after. -/
def range : Nat × Nat := (s.start, s.stop)

def contains (offset : Nat) : Bool := decide (s.start ≤ offset ∧ offset < s.stop)

@[simp] theorem contains_iff (offset : Nat) :
    s.contains offset = true ↔ s.start ≤ offset ∧ offset < s.stop := by
  simp [contains]

/-- The smallest span that covers both. It is placed where the one that starts
first is placed, and where `s` is placed if they start together. -/
def join (other : Span) : Span :=
  let first := if other.start < s.start then other else s
  ⟨min s.start other.start, max s.stop other.stop, first.line, first.column⟩

@[simp] theorem join_start (other : Span) : (s.join other).start = min s.start other.start := rfl

@[simp] theorem join_stop (other : Span) : (s.join other).stop = max s.stop other.stop := rfl

end Span
end ArithLexer
