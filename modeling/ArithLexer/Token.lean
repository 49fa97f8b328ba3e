import ArithLexer.Text.View
import ArithLexer.Span

/-!
# Tokens

A token is a kind, the text it was read from and the place of that text.
Operators and parentheses are single bytes, numbers are runs of digits. String
literals are reserved: they have a kind and no token.
-/

namespace ArithLexer

inductive TokenKind where
  | plus
  | minus
  | star
  | slash
  | openParen
  | closeParen
  | stringLiteral
  | numericLiteral
  deriving DecidableEq, Repr

namespace TokenKind

/-- The kind that a single byte spells. -/
def ofByte? (b : UInt8) : Option TokenKind :=
  if b = 0x2B then some plus
  else if b = 0x2D then some minus
  else if b = 0x2A then some star
  else if b = 0x2F then some slash
  else if b = 0x28 then some openParen
  else if b = 0x29 then some closeParen
  else none

variable (k : TokenKind)

/-- The spelling of a single-byte kind, or a word for the kind of literal. -/
def text : String :=
  match k with
  | plus => "+"
  | minus => "-"
  | star => "*"
  | slash => "/"
  | openParen => "("
  | closeParen => ")"
  | stringLiteral => "string literal"
  | numericLiteral => "numeric literal"

def name : String :=
  match k with
  | plus => "Plus"
  | minus => "Minus"
  | star => "Star"
  | slash => "Slash"
  | openParen => "OpenParen"
  | closeParen => "CloseParen"
  | stringLiteral => "StringLiteral"
  | numericLiteral => "NumericLiteral"

def isOperator : Bool := k matches plus | minus | star | slash

def isLiteral : Bool := k matches stringLiteral | numericLiteral

def all : List TokenKind :=
  [plus, minus, star, slash, openParen, closeParen, stringLiteral, numericLiteral]

end TokenKind

/-- A piece of source, classified and placed. -/
structure Token where
  kind : TokenKind
  lexeme : View
  span : Span
  deriving DecidableEq, Repr

namespace Token

/-- How many bytes of memory a token takes. -/
def size : Nat := 48

/-- A token whose text is as long as its span. -/
def new (kind : TokenKind) (lexeme : View) (span : Span) : Except Fault Token := do
  let length ← span.length
  if lexeme.length = length then return ⟨kind, lexeme, span⟩ else throw .lexemeMismatch

theorem new_of_length {lexeme : View} {span : Span} (h : span.start ≤ span.stop)
    (hl : lexeme.length = span.stop - span.start) (kind : TokenKind) :
    new kind lexeme span = .ok ⟨kind, lexeme, span⟩ := by
  simp [new, Span.length_of_le _ h, hl, bind, Except.bind, pure, Except.pure]

variable (t : Token)

def text : String :=
  s!"{t.kind.name} \"{t.lexeme.display}\" at {t.span.line}:{t.span.column}"

end Token
end ArithLexer
