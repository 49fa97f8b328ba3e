import ArithLexer.Toml.Reading

/-!
# Quoted strings

Basic strings stand between double quotes and know escapes, literal strings
stand between single quotes and know none. Three quotes open a string that may
run over several lines; a line end directly behind them does not count, and up
to two quotes may stand in front of the three that close it.
-/

namespace ArithLexer.Toml

/-- The value of a hexadecimal digit. -/
def hexDigit? (c : Char) : Option Nat :=
  if '0' ≤ c ∧ c ≤ '9' then some (c.toNat - '0'.toNat)
  else if 'a' ≤ c ∧ c ≤ 'f' then some (c.toNat - 'a'.toNat + 10)
  else if 'A' ≤ c ∧ c ≤ 'F' then some (c.toNat - 'A'.toNat + 10)
  else none

/-- The number of a fixed count of hexadecimal digits. -/
def readHex (count : Nat) : Reader Nat := fun text => do
  let digits ← (text.take count).mapM hexDigit?
  if digits.length = count then
    return (digits.foldl (fun n digit => 16 * n + digit) 0, text.drop count)
  else none

/-- The character of a code point, of those that are characters. -/
def scalar? (n : Nat) : Option Char := if n.isValidChar then some (Char.ofNat n) else none

/-- The character that is meant by what stands behind a backslash. -/
def readEscape : Reader Char
  | 'b' :: rest => some ('\x08', rest)
  | 't' :: rest => some ('\t', rest)
  | 'n' :: rest => some ('\n', rest)
  | 'f' :: rest => some ('\x0C', rest)
  | 'r' :: rest => some ('\r', rest)
  | '\x22' :: rest => some ('\x22', rest)
  | '\\' :: rest => some ('\\', rest)
  | 'u' :: rest => do
    let (n, rest) ← readHex 4 rest
    return (← scalar? n, rest)
  | 'U' :: rest => do
    let (n, rest) ← readHex 8 rest
    return (← scalar? n, rest)
  | _ => none

/-- A character that stands for itself in basic strings. -/
def isBasic (c : Char) : Bool := isPlain c && c ≠ '\x22' && c ≠ '\\'

/-- A character that stands for itself in literal strings. -/
def isLiteral (c : Char) : Bool := isPlain c && c ≠ '\x27'

/-- A piece of a basic string: an escaped character, or several as they are. -/
def readBasicRun : Reader (List Char)
  | '\\' :: rest => (readEscape rest).map fun (c, rest) => ([c], rest)
  | text => readRun isBasic text

/-- A basic string on one line. -/
def readBasic : Reader String := fun text => do
  let (content, rest) := many readBasicRun (← expect '\x22' text)
  return (String.ofList content.flatten, ← expect '\x22' rest)

/-- A literal string on one line. -/
def readLiteral : Reader String := fun text => do
  let rest ← expect '\x27' text
  return (String.ofList (rest.takeWhile isLiteral), ← expect '\x27' (rest.dropWhile isLiteral))

/-- One or two quotes that do not belong to the closing ones. -/
def readInnerQuotes (quote : Char) : Reader (List Char) := fun text =>
  let quotes := text.takeWhile (· == quote)
  if quotes.length = 1 ∨ quotes.length = 2 then some (quotes, text.drop quotes.length) else none

/-- The three closing quotes, with the one or two in front of them that count. -/
def readClosing (quote : Char) : Reader (List Char) := fun text =>
  let quotes := text.takeWhile (· == quote)
  if 3 ≤ quotes.length then
    let inner := min 2 (quotes.length - 3)
    some (List.replicate inner quote, text.drop (inner + 3))
  else none

/-- A string over several lines whose pieces a reader knows. -/
def readLines (quote : Char) (piece : Reader (List Char)) : Reader String := fun text => do
  let rest ← expectAll [quote, quote, quote] text
  let (content, rest) := many piece ((newline? rest).getD rest)
  let (closing, rest) ← readClosing quote rest
  return (String.ofList (content.flatten ++ closing), rest)

/-- Spaces and line ends. -/
def skipBlanks (text : List Char) : List Char :=
  (many (fun text =>
    match text with
    | c :: rest =>
      if isSpace c then some ((), skipSpaces rest)
      else (newline? text).map fun rest => ((), rest)
    | [] => none) text).2

/-- The text behind a line end that a backslash hides, with all blanks around it. -/
def hiddenLineEnd? (text : List Char) : Option (List Char) :=
  (newline? (skipSpaces text)).map skipBlanks

/-- A piece of a basic string over several lines. -/
def readBasicPiece : Reader (List Char) := fun text =>
  match newline? text, text with
  | some rest, _ => some (['\n'], rest)
  | none, '\\' :: behind =>
    match hiddenLineEnd? behind with
    | some rest => some ([], rest)
    | none => readBasicRun text
  | none, '\x22' :: _ => readInnerQuotes '\x22' text
  | none, _ => readBasicRun text

/-- A piece of a literal string over several lines. -/
def readLiteralPiece : Reader (List Char) := fun text =>
  match newline? text, text with
  | some rest, _ => some (['\n'], rest)
  | none, '\x27' :: _ => readInnerQuotes '\x27' text
  | none, _ => readRun isLiteral text

/-- A string of any of the four kinds. -/
def readString : Reader String
  | text@('\x22' :: '\x22' :: '\x22' :: _) => readLines '\x22' readBasicPiece text
  | text@('\x22' :: _) => readBasic text
  | text@('\x27' :: '\x27' :: '\x27' :: _) => readLines '\x27' readLiteralPiece text
  | text => readLiteral text

end ArithLexer.Toml
