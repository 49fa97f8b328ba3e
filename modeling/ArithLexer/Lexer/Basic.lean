import ArithLexer.Lexer.Lexeme
import ArithLexer.Lexer.Event
import ArithLexer.Diagnostic.Basic
import ArithLexer.Config.Basic

/-!
# Lexers

A lexer reads lexemes until one of them is a token or ends the scan. Before
each it marks the position, and the spans of tokens, diagnostics and errors
run from that mark up to the cursor. What it passes over follows from its
settings. An error halts it: it then yields nothing more until it starts again.

`step` handles one lexeme, `nextToken` goes on to the next result. Both move
the cursor only forward (`remaining_step`, `remaining_nextToken`), which is why
every loop over a lexer ends.
-/

namespace ArithLexer

/-- A cursor, the mark, the settings, what was collected, and whether an error halted it. -/
structure Lexer where
  cursor : Cursor
  /-- Where the lexeme being read starts. -/
  lexemeStart : Position
  config : Config
  tokens : Buffer Token
  diagnostics : Collector
  halted : Bool
  log : Array Event

/-- What pulling a token leads to: a token, the end, or an error. -/
abbrev Pulled := Except ScanError (Option Token)

namespace Lexer

/-- A lexer in front of a source. -/
def withConfig (source : Array UInt8) (config : Config) : Lexer where
  cursor := .new source
  lexemeStart := .start
  config := config
  tokens := .withCapacity config.initialCapacity (.ofSize Token.size)
  diagnostics := .empty
  halted := false
  log := #[]

/-- A lexer in front of a source, with the default settings. -/
def new (source : Array UInt8) : Lexer := withConfig source .default

variable (l : Lexer)

/-- Adds an event to the log. -/
def tell (event : Event) : Lexer := { l with log := l.log.push event }

/-- Adds a diagnostic to the collected ones. -/
def emit (d : Diagnostic) : Lexer := { l with diagnostics := l.diagnostics.emit d }

/-- Marks the position as the start of a lexeme. -/
def mark : Lexer := { l with lexemeStart := l.cursor.position }

/-- Hands out the log and starts a new one. -/
def takeLog : List Event × Lexer := (l.log.toList, { l with log := #[] })

/-- Hands out the collected diagnostics. -/
def takeDiagnostics : List Diagnostic × Lexer :=
  let (taken, diagnostics) := l.diagnostics.take
  (taken, { l with diagnostics })

/-- Drops what was collected, the memory for tokens too, and goes back to the start. -/
def release : Lexer :=
  mark { l with
    cursor := l.cursor.reset
    tokens := l.tokens.release
    diagnostics := .empty
    halted := false }

/-- Reads one lexeme and makes nothing of it. The mark stays where it is. -/
def scanLexeme : Except Fault (Lexeme × Lexer) := do
  let (lexeme, cursor) ← l.cursor.readLexeme
  return (lexeme, { l with cursor })

/-- The span from the mark up to the cursor. -/
def lexemeSpan : Except Fault Span := l.lexemeStart.spanTo l.cursor.offset

/-- The token of the source from the mark up to the cursor. -/
def makeToken (kind : TokenKind) : Except Fault Token := do
  let span ← l.lexemeSpan
  let length ← span.length
  let lexeme ← View.ofRange l.cursor.source span.start length
  Token.new kind lexeme span

/-- Passes over a byte that starts no token, as the settings tell, or stops at it. -/
def passOver (byte : UInt8) : Except Fault (Option ScanError × Lexer) :=
  if isBlank byte then .ok (none, l)
  else
    let character := Char.ofNat byte.toNat
    match l.config.unknownChars with
    | .skip => .ok (none, l.tell (.byteSkipped byte))
    | .report => do
      let span ← l.lexemeSpan
      let found := ScanError.unexpectedCharacter character span
      let told := l.tell (.characterReported character span.line span.column)
      return (none, told.emit ((Diagnostic.error found.reason span).withCode .unexpectedCharacter))
    | .reject => do
      let span ← l.lexemeSpan
      let told := l.tell (.characterRejected character span.line span.column)
      return (some (.unexpectedCharacter character span), { told with halted := true })

/-- Acts on the lexeme between the mark and the cursor. There is no result while the
lexer is to go on. -/
def act (lexeme : Lexeme) : Except Fault (Option Pulled × Lexer) :=
  match lexeme with
  | .finished => .ok (some (.ok none), l)
  | .token kind => do
    let token ← l.makeToken kind
    return (some (.ok (some token)), l.tell (.tokenRead kind token.span.start token.span.stop))
  | .skipped byte => do
    let (stopped, l) ← l.passOver byte
    return (stopped.map .error, l)
  | .unsupported feature => do
    let span ← l.lexemeSpan
    let found := ScanError.unsupported feature span
    let told := l.emit ((Diagnostic.error found.reason span).withCode .unsupported)
    return (some (.error found), { told with halted := true })

/-- Marks the position, reads one lexeme and acts on it. -/
def step : Except Fault (Option Pulled × Lexer) :=
  if l.cursor.atEnd then .ok (some (.ok none), l)
  else do
    let (lexeme, l) ← l.mark.scanLexeme
    l.act lexeme

theorem cursor_passOver {l l' : Lexer} {byte : UInt8}
    {stopped : Option ScanError} (h : l.passOver byte = .ok (stopped, l')) :
    l'.cursor = l.cursor := by
  unfold passOver at h
  split at h
  · cases h; rfl
  · dsimp only at h
    split at h
    · cases h; rfl
    · obtain ⟨_, _, h⟩ := bind_eq_ok.mp h; cases h; rfl
    · obtain ⟨_, _, h⟩ := bind_eq_ok.mp h; cases h; rfl

theorem cursor_act {l l' : Lexer} {lexeme : Lexeme} {result : Option Pulled}
    (h : l.act lexeme = .ok (result, l')) : l'.cursor = l.cursor := by
  cases lexeme with
  | finished => cases h; rfl
  | token kind => obtain ⟨_, _, h⟩ := bind_eq_ok.mp h; cases h; rfl
  | skipped byte =>
    obtain ⟨⟨_, m⟩, hp, h⟩ := bind_eq_ok.mp h
    cases h
    exact cursor_passOver hp
  | unsupported feature => obtain ⟨_, _, h⟩ := bind_eq_ok.mp h; cases h; rfl

/-- Going on to the next lexeme, or giving back a token, takes at least one byte. -/
theorem remaining_step {l l' : Lexer} {result : Option Pulled}
    (h : l.step = .ok (result, l')) (hr : result ≠ some (.ok none)) :
    l'.cursor.remaining < l.cursor.remaining := by
  unfold step scanLexeme at h
  split at h
  · cases h; exact absurd rfl hr
  obtain ⟨⟨lexeme, m⟩, hm, h⟩ := bind_eq_ok.mp h
  obtain ⟨⟨_, cursor⟩, hread, hm⟩ := bind_eq_ok.mp hm
  cases hm
  rw [cursor_act h]
  refine Cursor.remaining_readLexeme hread ?_
  rintro rfl
  cases h
  exact hr rfl

/-- Goes on until there is a result. -/
def seek (l : Lexer) : Except Fault (Pulled × Lexer) :=
  match _hs : l.step with
  | .error fault => .error fault
  | .ok (some result, l) => .ok (result, l)
  | .ok (none, l) => seek l
termination_by l.cursor.remaining
decreasing_by exact remaining_step _hs (by simp)

/-- The next token. A lexer that was halted has none. -/
def nextToken : Except Fault (Pulled × Lexer) :=
  if l.halted then .ok (.ok none, l) else l.seek

theorem remaining_seek {l l' : Lexer} {result : Pulled} (h : l.seek = .ok (result, l'))
    (hr : result ≠ .ok none) : l'.cursor.remaining < l.cursor.remaining := by
  fun_induction seek l with
  | case1 => cases h
  | case2 l result m hs => cases h; exact remaining_step hs (by simpa using hr)
  | case3 l m hs ih => exact Nat.lt_trans (ih h) (remaining_step hs (by simp))

/-- Every token and every error takes at least one byte. -/
theorem remaining_nextToken {l l' : Lexer} {result : Pulled}
    (h : l.nextToken = .ok (result, l')) (hr : result ≠ .ok none) :
    l'.cursor.remaining < l.cursor.remaining := by
  unfold nextToken at h
  split at h
  · cases h; exact absurd rfl hr
  · exact remaining_seek h hr

end Lexer
end ArithLexer
