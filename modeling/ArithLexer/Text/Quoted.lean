import ArithLexer.Text.Unprintable

/-!
# Quoted characters and texts

Messages and logs show characters between single quotes and texts between
double quotes. A backslash and the enclosing quote are written with a
backslash in front, NUL, tab, line feed and carriage return by their letters,
and every other character that leaves no mark of its own by its code point.
-/

namespace ArithLexer.Text

/-- How a character is written between two quotes of the given kind. -/
def escaped (quote c : Char) : List Char :=
  if c = quote ∨ c = '\\' then ['\\', c]
  else if c = '\x00' then ['\\', '0']
  else if c = '\t' then ['\\', 't']
  else if c = '\n' then ['\\', 'n']
  else if c = '\r' then ['\\', 'r']
  else if isUnprintable c then
    ['\\', 'u', '\x7b'] ++ Nat.toDigits 16 c.toNat ++ ['\x7d']
  else [c]

/-- The characters between two quotes of the given kind. -/
def quoted (quote : Char) (text : List Char) : String :=
  String.ofList (quote :: (text.flatMap (escaped quote) ++ [quote]))

/-- A character as messages and logs show it. -/
def quoteChar (c : Char) : String := quoted '\x27' [c]

/-- A text as messages and logs show it. -/
def quoteText (text : String) : String := quoted '\x22' text.toList

end ArithLexer.Text
