import ArithLexer.Span
import ArithLexer.Text.Quoted

/-!
# Scan errors

A scan stops at the first piece of source that is reserved for something not
implemented, or that the settings reject.
-/

namespace ArithLexer

/-- What the language reserves and the lexer does not implement. -/
inductive Feature where
  | stringLiteral
  deriving DecidableEq, Repr

def Feature.text : Feature → String
  | stringLiteral => "string literals"

/-- Why a scan stopped, and where. -/
inductive ScanError where
  | unsupported (feature : Feature) (span : Span)
  | unexpectedCharacter (character : Char) (span : Span)
  deriving DecidableEq, Repr

namespace ScanError

/-- The place of the offending source. -/
def span : ScanError → Span
  | unsupported _ span => span
  | unexpectedCharacter _ span => span

/-- What is wrong, without the place. -/
def reason : ScanError → String
  | unsupported feature _ => s!"{feature.text} are not implemented"
  | unexpectedCharacter character _ => s!"unexpected character {Text.quoteChar character}"

def message (e : ScanError) : String := s!"{e.reason} (at {e.span.line}:{e.span.column})"

end ScanError
end ArithLexer
