/-!
# Machine limits and broken contracts

Sizes and offsets live in 64 bits, line and column counters in 32. All
arithmetic of the library is on natural numbers; an operation whose result
would leave its range, or that is called outside its contract, ends in a
`Fault` in place of a value, and its argument stays as it was.
-/

namespace ArithLexer

/-- The largest size or offset. -/
def sizeMax : Nat := 0xFFFFFFFFFFFFFFFF

/-- The largest line or column number. -/
def counterMax : Nat := 0xFFFFFFFF

/-- The number of bytes that no allocation can reach, two to the power of 47. -/
def memoryLimit : Nat := 0x800000000000

/-- Why a request to an arena was refused. -/
inductive RequestError where
  /-- No block could be found or acquired for this many bytes. -/
  | outOfMemory (requested : Nat)
  /-- The size cannot be rounded up to the alignment. -/
  | sizeOverflow (size : Nat)
  deriving DecidableEq, Repr

def RequestError.message : RequestError → String
  | outOfMemory requested => s!"Arena out of memory: failed to allocate {requested} bytes"
  | sizeOverflow size => s!"Allocation size overflow: {size} bytes cannot be aligned"

/-- A broken contract: the caller asked for what the operation does not promise. -/
inductive Fault where
  /-- An index at or past the length of a buffer. -/
  | indexOutOfBounds (length index : Nat)
  /-- A view that does not lie inside its source. -/
  | viewOutOfRange (start length available : Nat)
  /-- An arena request that has to succeed was refused. -/
  | requestRefused (cause : RequestError)
  /-- The memory for a stored value cannot be had. -/
  | memoryExhausted
  /-- A span that ends before it starts. -/
  | reversedSpan
  /-- A token whose text and span differ in length. -/
  | lexemeMismatch
  /-- An offset past the largest one. -/
  | offsetOverflow
  /-- A line or column past the largest one. -/
  | positionOverflow
  /-- A slice that starts after the position it ends at. -/
  | reversedSlice
  deriving DecidableEq, Repr

/-- The text of a fault, for those that explain themselves. -/
def Fault.message? : Fault → Option String
  | indexOutOfBounds length index =>
    some s!"index out of bounds: the len is {length} but the index is {index}"
  | viewOutOfRange start length available =>
    some s!"text span {start}..{start}+{length} out of range for buffer of {available} bytes"
  | requestRefused cause => some cause.message
  | _ => none

/-- A chain of two fallible steps succeeds when both do. -/
theorem bind_eq_ok {α β ε : Type} {x : Except ε α} {f : α → Except ε β} {b : β} :
    (x >>= f) = .ok b ↔ ∃ a, x = .ok a ∧ f a = .ok b := by
  cases x <;> simp [bind, Except.bind]

end ArithLexer
