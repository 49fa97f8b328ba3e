import ArithLexer.Token
import ArithLexer.Text.Quoted

/-!
# Log events

What a lexer tells its log while it works. An event has a level, a fixed
message and fields whose values are numbers or texts.
-/

namespace ArithLexer

/-- How much detail a log has to ask for to see an event. -/
inductive Level where
  | trace
  | debug
  | warn
  deriving DecidableEq, Repr

/-- The value of a field of an event. -/
inductive FieldValue where
  | number (n : Nat)
  | text (t : String)
  deriving DecidableEq, Repr

/-- Something that happened while lexing. -/
inductive Event where
  | scanStarted (bytes : Nat)
  | tokenRead (kind : TokenKind) (start stop : Nat)
  | byteSkipped (byte : UInt8)
  | characterReported (character : Char) (line column : Nat)
  | characterRejected (character : Char) (line column : Nat)
  | scanFinished (tokens diagnostics : Nat)
  deriving DecidableEq, Repr

namespace Event

def level : Event → Level
  | scanStarted .. | scanFinished .. => .debug
  | tokenRead .. | byteSkipped .. => .trace
  | characterReported .. | characterRejected .. => .warn

def message : Event → String
  | scanStarted .. => "scan started"
  | tokenRead .. => "token"
  | byteSkipped .. => "skipped unrecognised byte"
  | characterReported .. => "unexpected character"
  | characterRejected .. => "rejected character"
  | scanFinished .. => "scan finished"

/-- The fields under their names. -/
def fields : Event → List (String × FieldValue)
  | scanStarted bytes => [("bytes", .number bytes)]
  | tokenRead kind start stop =>
    [("kind", .text kind.name), ("start", .number start), ("end", .number stop)]
  | byteSkipped byte => [("byte", .number byte.toNat)]
  | characterReported character line column | characterRejected character line column =>
    [("ch", .text (Text.quoteChar character)), ("line", .number line), ("column", .number column)]
  | scanFinished tokens diagnostics =>
    [("tokens", .number tokens), ("diagnostics", .number diagnostics)]

end Event
end ArithLexer
