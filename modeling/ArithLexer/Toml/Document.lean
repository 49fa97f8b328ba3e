import ArithLexer.Toml.Table
import ArithLexer.Toml.Moment

/-!
# Documents

A document is read in two steps: its text falls into statements, each a header
or a key with a value, and the statements build up its table. Brackets and
braces may be nested, and keys may be dotted, up to a fixed depth.
-/

namespace ArithLexer.Toml

/-- Depths of nesting, and lengths of dotted keys, stay below this. -/
def depthLimit : Nat := 80

/-- A character of a key without quotes. -/
def isBare (c : Char) : Bool := c.isAlphanum || c == '_' || c == '-'

/-- One part of a dotted key, with the spaces around it. -/
def readPart : Reader String := fun text => do
  let (part, rest) ← match skipSpaces text with
    | rest@('\x22' :: _) => readBasic rest
    | rest@('\x27' :: _) => readLiteral rest
    | rest => (readRun isBare rest).map fun (bare, rest) => (String.ofList bare, rest)
  return (part, skipSpaces rest)

/-- A key, dotted or not. -/
def readKey : Reader (List String) := fun text => do
  let (path, rest) ← separated '.' readPart text
  if path.length < depthLimit then return (path, rest) else none

/-- A key and a value, with the spaces around them. -/
def readPair (value : Reader Value) : Reader (List String × Value) := fun text => do
  let (path, rest) ← readKey text
  let (v, rest) ← value (skipSpaces (← expect '=' rest))
  return ((path, v), skipSpaces rest)

/-- The items of an array behind its opening bracket. -/
def readItems (value : Reader Value) : Reader Value := fun text => do
  let item : Reader Value := fun text => do
    let (v, rest) ← value (skipFiller text)
    return (v, skipFiller rest)
  let (items, rest) := match separated ',' item text with
    | some (items, rest) => (items, (expect ',' rest).getD rest)
    | none => ([], text)
  return (.array items, ← expect ']' (skipFiller rest))

/-- The pairs of a table behind its opening brace. -/
def readPairs (value : Reader Value) : Reader Value := fun text => do
  let (pairs, rest) := (separated ',' (readPair value) text).getD ([], text)
  let rest ← expect '\x7d' (skipSpaces rest)
  return (.table .inline (← Entries.ofPairs? pairs), rest)

/-- A value without brackets or braces. -/
def readScalar : Reader Value := fun text =>
  match text with
  | [] => none
  | c :: _ =>
    if c = '\x22' ∨ c = '\x27' then (readString text).map fun (t, rest) => (.string t, rest)
    else if c = 't' then (expectAll ['t', 'r', 'u', 'e'] text).map fun rest => (.boolean true, rest)
    else if c = 'f' then
      (expectAll ['f', 'a', 'l', 's', 'e'] text).map fun rest => (.boolean false, rest)
    else
      match moment? text with
      | some rest => some (.moment, rest)
      | none =>
        match float? text with
        | some rest => some (.float, rest)
        | none => (readInteger text).map fun (n, rest) => (.integer n, rest)

/-- A value nested at most `depth` deep. -/
def readValue : (depth : Nat) → Reader Value
  | 0, text => readScalar text
  | depth + 1, text =>
    match text with
    | '[' :: rest => readItems (readValue depth) rest
    | '\x7b' :: rest => readPairs (readValue depth) rest
    | _ => readScalar text

/-- A part of a document that stands on lines of its own. -/
inductive Statement where
  /-- A line end or a comment. -/
  | blank
  | pair (path : List String) (value : Value)
  | header (path : List String)
  | nextHeader (path : List String)

/-- A header, between single or double brackets. -/
def readHeader : Reader Statement
  | '[' :: '[' :: text => do
    let (path, rest) ← readKey text
    return (.nextHeader path, ← statementEnd? (← expectAll [']', ']'] rest))
  | text => do
    let (path, rest) ← readKey (← expect '[' text)
    return (.header path, ← statementEnd? (← expect ']' rest))

/-- A statement and the end of its line. -/
def readStatement : Reader Statement := fun text =>
  match text with
  | [] => none
  | c :: _ =>
    if c = '\x23' then ((comment? text).bind lineEnd?).map fun rest => (.blank, rest)
    else if c = '\n' ∨ c = '\r' then (newline? text).map fun rest => (.blank, rest)
    else if c = '[' then readHeader text
    else do
      let ((path, value), rest) ← readPair (readValue (depthLimit - 1)) text
      return (.pair path value, ← statementEnd? rest)

/-- The statements of a whole text. A mark of the byte order at its start does not count. -/
def readStatements (text : List Char) : Option (List Statement) :=
  let text := (expect '\uFEFF' text).getD text
  let spaced : Reader Statement := fun text =>
    (readStatement text).map fun (statement, rest) => (statement, skipSpaces rest)
  match many spaced (skipSpaces text) with
  | (statements, []) => some statements
  | _ => none

/-- A document so far: its table, and the path of the header that was read last. -/
structure Draft where
  entries : Entries
  path : List String

/-- Adds a statement to a document. -/
def Draft.add? (d : Draft) : Statement → Option Draft
  | .blank => some d
  | .pair path value =>
    (d.entries.within? (·.insert? value path) d.path).map fun entries => { d with entries }
  | .header path => do
    let entries ← d.entries.within? (Entries.openTable? (← path.getLast?)) path.dropLast
    return { entries, path }
  | .nextHeader path => do
    let entries ← d.entries.within? (Entries.openNext? (← path.getLast?)) path.dropLast
    return { entries, path }

/-- The table of a text, if the text is a document. -/
def parse (text : String) : Option Entries := do
  let statements ← readStatements text.toList
  let draft ← statements.foldlM Draft.add? ⟨[], []⟩
  return draft.entries

end ArithLexer.Toml
