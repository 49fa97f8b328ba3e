import ArithLexer.Span

/-!
# Positions

A position is the number of bytes read and the line and column that come next.
Every byte counts as one column; a line feed ends its line. A position moves
over one byte at a time, so in a given source it is a function of its offset.
-/

namespace ArithLexer

def lineFeed : UInt8 := 0x0A

/-- Bytes read so far, and the line and column of the next one, counted from one. -/
structure Position where
  offset : Nat
  line : Nat
  column : Nat
  deriving DecidableEq, Repr

namespace Position

def start : Position := ⟨0, 1, 1⟩

instance : Inhabited Position := ⟨start⟩

variable (p : Position)

/-- The position behind one more byte, if its line and column can be counted. -/
def step (b : UInt8) : Except Fault Position :=
  if b = lineFeed then
    if p.line < counterMax then .ok ⟨p.offset + 1, p.line + 1, 1⟩ else .error .positionOverflow
  else
    if p.column < counterMax then .ok ⟨p.offset + 1, p.line, p.column + 1⟩
    else .error .positionOverflow

/-- The span from a position up to another offset. -/
def spanTo (stop : Nat) : Except Fault Span := Span.new p.offset stop p.line p.column

theorem offset_step {b : UInt8} {q : Position} (h : p.step b = .ok q) :
    q.offset = p.offset + 1 := by
  unfold step at h
  split at h <;> split at h <;> cases h <;> rfl

end Position
end ArithLexer
