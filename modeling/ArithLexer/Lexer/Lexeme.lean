import ArithLexer.Cursor
import ArithLexer.Token
import ArithLexer.Lexer.Error

/-!
# Lexemes

The source falls into lexemes: runs of digits as long as possible, and single
bytes for all else. Reading one needs nothing but a cursor, and moves it over at
least one byte unless the source has ended (`remaining_readLexeme`).
-/

namespace ArithLexer

/-- The digits that numbers are made of. -/
def isDigit (b : UInt8) : Bool := 0x30 ≤ b && b ≤ 0x39

/-- Tab, line feed, form feed, carriage return and space. -/
def isBlank (b : UInt8) : Bool :=
  b == 0x09 || b == 0x0A || b == 0x0C || b == 0x0D || b == 0x20

/-- The byte that is reserved for string literals. -/
def quoteByte : UInt8 := 0x22

/-- What a piece of source was found to be. -/
inductive Lexeme where
  /-- A whole token. -/
  | token (kind : TokenKind)
  /-- A byte that starts no token. -/
  | skipped (byte : UInt8)
  /-- The first byte of something that is not implemented. -/
  | unsupported (feature : Feature)
  /-- Nothing, for the source has ended. -/
  | finished
  deriving DecidableEq, Repr

namespace Cursor

/-- Reads the lexeme that starts with a byte just read. -/
def readRest (c : Cursor) (first : UInt8) : Except Fault (Lexeme × Cursor) :=
  if first = quoteByte then .ok (.unsupported .stringLiteral, c)
  else if isDigit first then (c.eatWhile isDigit).map fun c => (.token .numericLiteral, c)
  else
    match TokenKind.ofByte? first with
    | some kind => .ok (.token kind, c)
    | none => .ok (.skipped first, c)

/-- Reads the next lexeme. -/
def readLexeme (c : Cursor) : Except Fault (Lexeme × Cursor) :=
  match c.advance with
  | .error fault => .error fault
  | .ok (none, c) => .ok (.finished, c)
  | .ok (some first, c) => c.readRest first

theorem source_readRest {c d : Cursor} {first : UInt8} {lexeme : Lexeme}
    (h : c.readRest first = .ok (lexeme, d)) :
    d.source = c.source ∧ c.offset ≤ d.offset := by
  unfold readRest at h
  split at h
  · cases h
    exact ⟨rfl, Nat.le_refl _⟩
  · split at h
    · cases he : c.eatWhile isDigit with
      | error f => rw [he] at h; cases h
      | ok e =>
        rw [he] at h
        cases h
        exact source_eatWhile he
    · split at h <;> cases h <;> exact ⟨rfl, Nat.le_refl _⟩

/-- A lexeme other than the end has at least one byte. -/
theorem remaining_readLexeme {c d : Cursor} {lexeme : Lexeme}
    (h : c.readLexeme = .ok (lexeme, d)) (hl : lexeme ≠ .finished) :
    d.remaining < c.remaining := by
  unfold readLexeme at h
  cases ha : c.advance with
  | error f => rw [ha] at h; cases h
  | ok r =>
    obtain ⟨_ | first, e⟩ := r
    · rw [ha] at h; cases h; exact absurd rfl hl
    · rw [ha] at h
      have hr := source_readRest h
      have hlt : e.remaining < c.remaining := by
        rw [← length_unread, ← length_unread, unread_advance ha]
        simp
      have hle : d.remaining ≤ e.remaining := by
        simp only [remaining, hr.1]
        omega
      omega

end Cursor
end ArithLexer
