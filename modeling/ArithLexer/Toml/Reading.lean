/-!
# Reading from the front of a text

A reader takes what it understands from the front of a list of characters and
returns it with the rest, or nothing if the front is something else. Readers
are tried one after the other, so none of them has to say why it refused.

`many` repeats a reader as often as it takes something, and the text itself
bounds how often that is. Where the reader takes nothing, so does the repetition
(`many_of_none`).
-/

namespace ArithLexer.Toml

/-- What was read, and the rest of the text. -/
abbrev Reader (α : Type) := List Char → Option (α × List Char)

/-- The rest behind one character that has to come first. -/
def expect (c : Char) : List Char → Option (List Char)
  | [] => none
  | d :: rest => if d = c then some rest else none

/-- The rest behind characters that have to come first. -/
def expectAll : (expected text : List Char) → Option (List Char)
  | [], text => some text
  | c :: expected, text => (expect c text).bind (expectAll expected)

/-- One or more characters of a class, as many as there are. -/
def readRun (ofClass : Char → Bool) : Reader (List Char) := fun text =>
  match text.takeWhile ofClass with
  | [] => none
  | run => some (run, text.dropWhile ofClass)

/-- What a reader takes in a row, behind what was found before, as often as `bound`
has characters at most. -/
def manyOnto {α : Type} (read : Reader α) :
    (found : Array α) → (bound text : List Char) → Array α × List Char
  | found, [], text => (found, text)
  | found, _ :: bound, text =>
    match read text with
    | none => (found, text)
    | some (a, rest) => manyOnto read (found.push a) bound rest

/-- Everything that a reader takes in a row. One that advances cannot take more
often than there are characters, so the text bounds its own reading. -/
def many {α : Type} (read : Reader α) (text : List Char) : List α × List Char :=
  let (found, rest) := manyOnto read #[] text text
  (found.toList, rest)

theorem manyOnto_of_none {α : Type} {read : Reader α} {text : List Char} (h : read text = none)
    (found : Array α) (bound : List Char) : manyOnto read found bound text = (found, text) := by
  cases bound <;> simp [manyOnto, h]

theorem many_of_none {α : Type} {read : Reader α} {text : List Char} (h : read text = none) :
    many read text = ([], text) := by
  simp [many, manyOnto_of_none h]

/-- What a reader takes one or more times, with a separator in between. -/
def separated {α : Type} (separator : Char) (read : Reader α) : Reader (List α) := fun text => do
  let (first, rest) ← read text
  let (others, rest) := many (fun text => (expect separator text).bind read) rest
  return (first :: others, rest)

/-- A character of one line of space. -/
def isSpace (c : Char) : Bool := c == ' ' || c == '\t'

/-- The text behind any spaces. -/
def skipSpaces (text : List Char) : List Char := text.dropWhile isSpace

/-- The text behind the end of a line. -/
def newline? : List Char → Option (List Char)
  | '\n' :: rest => some rest
  | '\r' :: '\n' :: rest => some rest
  | _ => none

/-- The text behind the end of a line or of the whole text. -/
def lineEnd? : List Char → Option (List Char)
  | [] => some []
  | text => newline? text

/-- A character that is no control, or a tab. -/
def isPlain (c : Char) : Bool := c == '\t' || ('\x20' ≤ c && c ≠ '\x7F')

/-- The text behind a comment, which reaches up to the end of its line. -/
def comment? (text : List Char) : Option (List Char) :=
  (expect '\x23' text).map (·.dropWhile isPlain)

/-- The text behind what may follow a statement on its line. -/
def statementEnd? (text : List Char) : Option (List Char) :=
  let text := skipSpaces text
  lineEnd? ((comment? text).getD text)

/-- Any number of spaces, line ends and comments. -/
def skipFiller (text : List Char) : List Char :=
  (many (fun text =>
    match text with
    | c :: rest =>
      if isSpace c then some ((), skipSpaces rest)
      else ((newline? text).or (comment? text)).map fun rest => ((), rest)
    | [] => none) text).2

end ArithLexer.Toml
