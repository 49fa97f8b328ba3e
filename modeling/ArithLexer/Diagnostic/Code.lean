/-!
# Diagnostic codes

A code is a family and a number, printed one after the other with the number
filled up with zeros to four digits.
-/

namespace ArithLexer

/-- The code of a kind of diagnostic. -/
structure DiagnosticCode where
  family : String
  number : Nat
  deriving DecidableEq, Repr

namespace DiagnosticCode

/-- A byte that starts no token. -/
def unexpectedCharacter : DiagnosticCode := ⟨"E", 1001⟩

/-- Something that is reserved and not implemented. -/
def unsupported : DiagnosticCode := ⟨"E", 1002⟩

/-- The least number of digits that are printed. -/
def width : Nat := 4

variable (c : DiagnosticCode)

def digits : List Char := (Nat.toDigits 10 c.number).leftpad width '0'

def text : String := c.family ++ String.ofList c.digits

/-- The code as logs show it. -/
def describe : String := s!"DiagnosticCode({c.text})"

end DiagnosticCode
end ArithLexer
