/-!
# UTF-8

A decoder reads bytes one at a time. It is between two characters, or inside
one of which some bytes are still to come; then it knows the range that the
next byte has to lie in, so that overlong forms, surrogates and code points
past the last one are refused at the first byte that gives them away. What
was read of a refused sequence counts as one malformed piece, and the byte
that broke it starts the next piece.

`decode?` accepts text without malformed pieces, `decodeLossy` writes the
replacement character for each of them.
-/

namespace ArithLexer.Text

/-- The UTF-8 form of a text. -/
def encode (text : String) : List UInt8 := text.toList.flatMap String.utf8EncodeChar

/-- Where a decoder stands between two bytes. -/
inductive DecoderState where
  /-- Between two characters. -/
  | idle
  /-- Inside a character of which `missing + 1` bytes are to come, the next one
  between `low` and `high`. The bits read so far are `bits`. -/
  | inside (missing : Nat) (low high : UInt8) (bits : Nat)
  deriving DecidableEq, Repr

/-- A decoder: the pieces read, with `none` for a malformed one, and the state. -/
structure Decoder where
  pieces : Array (Option Char)
  state : DecoderState

namespace Decoder

def start : Decoder := ⟨#[], .idle⟩

/-- Reads the first byte of a piece. -/
def firstByte (pieces : Array (Option Char)) (b : UInt8) : Decoder :=
  let inside (missing : Nat) (low high : UInt8) (mark : Nat) : Decoder :=
    ⟨pieces, .inside missing low high (b.toNat - mark)⟩
  if b ≤ 0x7F then ⟨pieces.push (some (Char.ofNat b.toNat)), .idle⟩
  else if b ≤ 0xC1 then ⟨pieces.push none, .idle⟩
  else if b ≤ 0xDF then inside 0 0x80 0xBF 0xC0
  else if b = 0xE0 then inside 1 0xA0 0xBF 0xE0
  else if b = 0xED then inside 1 0x80 0x9F 0xE0
  else if b ≤ 0xEF then inside 1 0x80 0xBF 0xE0
  else if b = 0xF0 then inside 2 0x90 0xBF 0xF0
  else if b ≤ 0xF3 then inside 2 0x80 0xBF 0xF0
  else if b = 0xF4 then inside 2 0x80 0x8F 0xF0
  else ⟨pieces.push none, .idle⟩

/-- Reads one byte. -/
def feed (d : Decoder) (b : UInt8) : Decoder :=
  match d.state with
  | .idle => firstByte d.pieces b
  | .inside missing low high bits =>
    if low ≤ b ∧ b ≤ high then
      let bits := bits * 64 + (b.toNat - 0x80)
      match missing with
      | 0 => ⟨d.pieces.push (some (Char.ofNat bits)), .idle⟩
      | n + 1 => ⟨d.pieces, .inside n 0x80 0xBF bits⟩
    else firstByte (d.pieces.push none) b

/-- The pieces at the end of the bytes, where an unfinished character is malformed. -/
def finish (d : Decoder) : Array (Option Char) :=
  match d.state with
  | .idle => d.pieces
  | .inside .. => d.pieces.push none

end Decoder

/-- The characters and malformed pieces that the bytes fall into. -/
def pieces (bytes : List UInt8) : Array (Option Char) :=
  (bytes.foldl Decoder.feed Decoder.start).finish

/-- The text that the bytes spell, if they are well formed. -/
def decode? (bytes : List UInt8) : Option String :=
  let found := pieces bytes
  if found.all Option.isSome then some (String.ofList (found.toList.filterMap id)) else none

/-- The text that the bytes spell, with a replacement character for each malformed piece. -/
def decodeLossy (bytes : List UInt8) : String :=
  String.ofList ((pieces bytes).toList.map fun piece => piece.getD '\uFFFD')

end ArithLexer.Text
