import ArithLexer.Arena.Memory
import ArithLexer.Arena.Block

/-!
# Arenas

An arena owns blocks, the newest first, and hands out stretches of the newest
one. When a request does not fit there, a larger block is looked for: the
wanted size starts at twice the newest block and is halved until a block of it
is allowed by the limit and can be had. Releasing an arena takes everything
back at once and keeps the newest block.

Blocks lie one behind the other in the addresses of `memory`.
-/

namespace ArithLexer

/-- Blocks with the newest first, their contents, and a limit on their total size. -/
structure Arena where
  limit : Option Nat
  blocks : List Block
  memory : Memory

namespace Arena

def empty : Arena := ⟨none, [], Memory.fresh⟩

instance : Inhabited Arena := ⟨empty⟩

/-- An arena without blocks whose blocks may never exceed a total size. -/
def withLimit (limit : Nat) : Arena := { empty with limit := some limit }

/-- An arena whose first block has room for `capacity` bytes. -/
def withCapacity (capacity : Nat) : Except Fault Arena :=
  if capacity = 0 then .ok empty
  else
    let size := Block.sizeFor Block.leastSize capacity 1
    if size < memoryLimit then .ok { empty with blocks := [Block.fresh 0 size] }
    else .error .memoryExhausted

variable (a : Arena)

def allocatedBytes : Nat := a.blocks.foldr (fun block total => block.size + total) 0

def blockCount : Nat := a.blocks.length

def frontier : Nat := (a.blocks.head?.map Block.stop).getD 0

/-- Hands out a stretch of the newest block. An arena without blocks can hand
out nothing at all, which does for a request without bytes. -/
def carve (size align : Nat) : Option (Nat × Arena) :=
  match a.blocks with
  | [] => if size = 0 then some (0, a) else none
  | newest :: older =>
    (newest.carve size align).map fun (start, newest) =>
      (start, { a with blocks := newest :: older })

/-- Whether a block of this size is within the limit and can be had. -/
def admits (size : Nat) : Bool :=
  decide (size < memoryLimit) &&
    match a.limit with
    | none => true
    | some limit => decide (a.allocatedBytes + size ≤ limit)

/-- Whether a search for `size` bytes may go on with this wanted size. Below the
least block size it may only for the first block under a limit that is itself
below it. -/
def mayWant (size wanted : Nat) : Bool :=
  decide (max size Block.leastSize ≤ wanted) ||
    match a.limit with
    | none => false
    | some limit =>
      decide (size < limit ∧ size ≤ wanted ∧ limit < Block.leastSize ∧ a.allocatedBytes = 0)

/-- The size of the first admitted block for wanted sizes halved from `wanted` on. -/
def findBlock (size align wanted : Nat) : Option Nat :=
  if _h : 0 < wanted then
    if a.mayWant size wanted then
      let found := Block.sizeFor wanted size align
      if a.admits found then some found else findBlock size align (wanted / 2)
    else none
  else none
termination_by wanted

/-- The wanted size that a search for `size` bytes starts from. -/
def firstWanted (size : Nat) : Nat :=
  max ((a.blocks.head?.map fun newest => 2 * newest.size).getD 0) (max size Block.leastSize)

/-- Hands out a stretch of `size` bytes, from a new block if need be: the address
it starts at, if there is one, and the arena afterwards. -/
def reserve (size align : Nat) : Option Nat × Arena :=
  match a.carve size align with
  | some (start, a) => (some start, a)
  | none =>
    match a.findBlock size align (a.firstWanted size) with
    | none => (none, a)
    | some found =>
      let grown := { a with blocks := Block.fresh a.frontier found :: a.blocks }
      match grown.carve size align with
      | some (start, a) => (some start, a)
      | none => (none, grown)

/-- Takes back all that was handed out and keeps the newest block. -/
def release : Arena :=
  { a with blocks := (a.blocks.take 1).map fun newest => Block.fresh newest.base newest.size }

def describe : String := s!"Arena \x7b allocated_bytes: {a.allocatedBytes} \x7d"

end Arena
end ArithLexer
