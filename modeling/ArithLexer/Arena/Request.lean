import ArithLexer.Arena.Basic
import ArithLexer.Text.View

/-!
# Requests to an arena

A request for bytes comes back as a region of zeros on the strictest
alignment, or as the reason why it cannot be had. Values are stored in regions
that hold just their bytes; for them the memory has to be there.
-/

namespace ArithLexer
namespace Arena

/-- The largest size that can be rounded up to the strictest alignment. -/
def largestRequest : Nat := 0x8000000000000000 - maxAlign

variable (a : Arena)

/-- A region of `size` zeros, or the reason why there is none, and the arena
afterwards. A region without bytes costs nothing. -/
def request (size : Nat) : Except RequestError Region × Arena :=
  if size = 0 then (.ok .empty, a)
  else if largestRequest < size then (.error (.sizeOverflow size), a)
  else
    let rounded := roundUp size maxAlign
    match a.reserve rounded maxAlign with
    | (none, a) => (.error (.outOfMemory rounded), a)
    | (some start, a) =>
      let region : Region := ⟨start, size⟩
      (.ok region, { a with memory := a.memory.write region fun _ => 0 })

/-- A region of `size` zeros that has to be there. -/
def demand (size : Nat) : Except Fault (Region × Arena) :=
  match a.request size with
  | (.ok region, a) => .ok (region, a)
  | (.error cause, _) => .error (.requestRefused cause)

def store (bytes : List UInt8) (align : Nat) : Except Fault (Region × Arena) :=
  match a.reserve bytes.length align with
  | (none, _) => .error .memoryExhausted
  | (some start, a) =>
    let region : Region := ⟨start, bytes.length⟩
    let content := bytes.toArray
    .ok (region, { a with memory := a.memory.write region fun k => content.getD k 0 })

def read (r : Region) : List UInt8 := a.memory.read r

def fill (r : Region) (byte : UInt8) : Arena :=
  { a with memory := a.memory.write r fun _ => byte }

/-- Stores words of a width, aligned to it. -/
def storeWords (width : Nat) (words : List Nat) : Except Fault (Region × Arena) :=
  a.store (words.flatMap (wordBytes width)) width

/-- The `count` words of a width that a region starts with. -/
def readWords (width count : Nat) (r : Region) : List Nat :=
  (List.range count).map fun k => wordOfBytes (a.read ⟨r.start + k * width, width⟩)

/-- Changes the word of a width that a region starts with; what does not fit into
the word is dropped. -/
def modifyWord (width : Nat) (f : Nat → Nat) (r : Region) : Arena :=
  let word := wordOfBytes (a.read ⟨r.start, width⟩)
  let content := (wordBytes width (f word)).toArray
  { a with memory := a.memory.write ⟨r.start, width⟩ fun k => content.getD k 0 }

/-- Stores the bytes of a view, which need no alignment. -/
def storeView (v : View) : Except Fault (Region × Arena) := a.store v.bytes 1

def view (r : Region) : View := ⟨a.read r⟩

end Arena

/-- A copy of a view whose bytes an arena holds. -/
def View.copyInto (v : View) (a : Arena) : Except Fault (View × Arena) := do
  let (region, a) ← a.storeView v
  return (a.view region, a)

end ArithLexer
