import ArithLexer.Lexer.Basic

/-!
# Scanning

A scan starts over and appends every token to the buffer of the lexer, up to
the end or the first error. An iterator hands the tokens out instead and leaves
the buffer alone. `tokenize` scans a source with a lexer of its own.
-/

namespace ArithLexer
namespace Lexer

/-- Appends the tokens from the position on. -/
def collect (l : Lexer) : Except Fault (Option ScanError × Lexer) :=
  match _hn : l.nextToken with
  | .error fault => .error fault
  | .ok (.error found, l) => .ok (some found, l)
  | .ok (.ok none, l) => .ok (none, l)
  | .ok (.ok (some token), l) => collect { l with tokens := l.tokens.push token }
termination_by l.cursor.remaining
decreasing_by exact remaining_nextToken _hn (by simp)

variable (l : Lexer)

/-- The lexer at the start of its source, ready to go, with all that it collected. -/
def rewind : Lexer := mark { l with cursor := l.cursor.reset, halted := false }

/-- Scans the whole source. The tokens are appended to those of earlier scans. -/
def scan : Except Fault (Except ScanError (Buffer Token) × Lexer) := do
  let started := l.rewind.tell (.scanStarted l.cursor.source.size)
  let (stopped, l) ← started.collect
  match stopped with
  | some found => return (.error found, l)
  | none =>
    let finished := l.tell (.scanFinished l.tokens.length l.diagnostics.length)
    return (.ok finished.tokens, finished)

end Lexer

/-- Pulls tokens from the lexer that it holds. It keeps nothing of its own, so
dropping it and starting another changes nothing. -/
structure TokenIter where
  lexer : Lexer

namespace TokenIter

/-- The next token or error, if there is one. -/
def next (it : TokenIter) : Except Fault (Option (Except ScanError Token) × TokenIter) := do
  let (pulled, lexer) ← it.lexer.nextToken
  match pulled with
  | .ok none => return (none, ⟨lexer⟩)
  | .ok (some token) => return (some (.ok token), ⟨lexer⟩)
  | .error found => return (some (.error found), ⟨lexer⟩)

/-- The next items behind those already taken, up to a number of them. -/
def takeOnto (taken : Array (Except ScanError Token)) : (count : Nat) → (it : TokenIter) →
    Except Fault (Array (Except ScanError Token) × TokenIter)
  | 0, it => .ok (taken, it)
  | count + 1, it =>
    match it.next with
    | .error fault => .error fault
    | .ok (none, it) => .ok (taken, it)
    | .ok (some item, it) => takeOnto (taken.push item) count it

end TokenIter

namespace Lexer

variable (l : Lexer)

/-- An iterator from the position on. -/
def iter : TokenIter := ⟨l⟩

/-- Pulls tokens and errors until there is none or the number is reached. -/
def pull (count : Nat) : Except Fault (List (Except ScanError Token) × Lexer) :=
  (TokenIter.takeOnto #[] count l.iter).map fun (taken, it) => (taken.toList, it.lexer)

/-- Pulls tokens and errors until there is none. Each takes at least one byte, so
there is none left after as many pulls as there are bytes. -/
def pullAll : Except Fault (List (Except ScanError Token) × Lexer) :=
  l.pull (l.cursor.remaining + 1)

end Lexer

/-- The tokens of a source under the default settings. -/
def tokenize (source : Array UInt8) : Except Fault (Except ScanError (Buffer Token)) :=
  (Lexer.new source).scan.map Prod.fst

end ArithLexer
