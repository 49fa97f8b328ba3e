import ArithLexer.Fault

/-!
# Blocks

An arena takes memory in blocks and hands it out from the end of the newest
block downwards. The sizes of blocks leave room for a footer in a power of
two, or in a whole number of pages once they are large.
-/

namespace ArithLexer

/-- The least multiple of `align` that is not below `n`. -/
def roundUp (n align : Nat) : Nat := (n + (align - 1)) / align * align

theorem le_roundUp (n : Nat) {align : Nat} (h : 0 < align) : n ≤ roundUp n align := by
  have hd := Nat.div_add_mod (n + (align - 1)) align
  have hm := Nat.mod_lt (n + (align - 1)) h
  have hc := Nat.mul_comm align ((n + (align - 1)) / align)
  simp only [roundUp]
  omega

/-- The least power of two that is not below `n`. -/
def powerAbove (n : Nat) : Nat := if n ≤ 1 then 1 else Nat.pow 2 ((n - 1).log2 + 1)

theorem le_powerAbove (n : Nat) : n ≤ powerAbove n := by
  unfold powerAbove
  split
  · assumption
  · have h : n - 1 < Nat.pow 2 ((n - 1).log2 + 1) := Nat.lt_log2_self
    omega

def maxAlign : Nat := 16

/-- A block of memory: its addresses start at `base`, and of its `size` bytes the
first `free` are not handed out. -/
structure Block where
  base : Nat
  size : Nat
  free : Nat
  deriving DecidableEq, Repr

namespace Block

/-- The bytes at the end of a block that belong to its footer. -/
def footer : Nat := 64

/-- The size below which blocks fill powers of two. -/
def page : Nat := 4096

/-- The usable size of the smallest block an arena takes without being told otherwise. -/
def leastSize : Nat := 448

/-- The size of a block that holds `size` bytes and is not smaller than `wanted`. -/
def sizeFor (wanted size align : Nat) : Nat :=
  let n := max wanted (roundUp size (max maxAlign align))
  if n < page then powerAbove (n + footer) - footer else roundUp (n + footer) page - footer

def fresh (base size : Nat) : Block := ⟨base, size, size⟩

variable (b : Block)

def stop : Nat := b.base + b.size

/-- Hands out the last free bytes that a request of this size and alignment can
have: the address they start at, and the block without them. -/
def carve (size align : Nat) : Option (Nat × Block) :=
  let available := b.free - b.free % align
  if roundUp size align ≤ available then
    let free := available - roundUp size align
    some (b.base + free, { b with free })
  else none

end Block
end ArithLexer
