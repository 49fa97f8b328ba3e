/-!
# Values and tables

A document is a table: keys with values, in the order in which they came to
be. Tables come from headers, from the paths of headers and of dotted keys,
and from braces, and this decides what may be added to them later: a header
may give content to a table that was only implied, a dotted key may go on in a
table that dotted keys made, and nothing is added between braces once they are
closed. No key is ever given twice.
-/

namespace ArithLexer.Toml

/-- Where a table comes from. -/
inductive Origin where
  /-- A header of its own, or the document itself. -/
  | header
  /-- The path of a header. -/
  | implied
  /-- The path of a dotted key. -/
  | dotted
  /-- A pair of braces. -/
  | inline
  deriving DecidableEq, Repr

/-- A value. Of floats and moments only the kind is kept. -/
inductive Value where
  | string (text : String)
  | integer (n : Int)
  | boolean (b : Bool)
  | float
  | moment
  | array (items : List Value)
  | table (origin : Origin) (entries : List (String × Value))
  /-- Tables under one header: the entries of the last, and the earlier ones backwards. -/
  | tables (last : List (String × Value)) (earlier : List (List (String × Value)))

/-- The content of a table. -/
abbrev Entries := List (String × Value)

namespace Entries

variable (entries : Entries)

/-- The value of a key. -/
def find? (key : String) : Option Value := entries.lookup key

/-- Gives a key that is there another value and keeps its place. -/
def replace (key : String) (value : Value) : Entries :=
  entries.map fun entry => if entry.1 = key then (key, value) else entry

/-- The entries without those of a key. -/
def erase (key : String) : Entries := entries.filter fun entry => entry.1 ≠ key

/-- Adds a key that is not there, behind all others. -/
def add? (key : String) (value : Value) : Option Entries :=
  match entries.find? key with
  | none => some (entries ++ [(key, value)])
  | some _ => none

/-- Adds a value under a dotted key. The path may lead into a table that a dotted
key made, and through one that a header implied; only the former may take the
value itself. -/
def insert? (value : Value) : (path : List String) → Entries → Option Entries
  | [], _ => none
  | [key], entries => entries.add? key value
  | key :: next :: path, entries =>
    match entries.find? key with
    | none => (insert? value (next :: path) []).map fun inner =>
        entries ++ [(key, .table .dotted inner)]
    | some (.table .dotted inner) => (insert? value (next :: path) inner).map fun inner =>
        entries.replace key (.table .dotted inner)
    | some (.table .implied inner) =>
      if path.isEmpty then none
      else (insert? value (next :: path) inner).map fun inner =>
        entries.replace key (.table .implied inner)
    | some (.tables last earlier) =>
      if path.isEmpty then none
      else (insert? value (next :: path) last).map fun last =>
        entries.replace key (.tables last earlier)
    | some _ => none

/-- Changes the table that the path of a header leads to. Tables that are not
there are implied, and of tables under one header the last is meant. -/
def within? (change : Entries → Option Entries) :
    (path : List String) → Entries → Option Entries
  | [], entries => change entries
  | key :: path, entries =>
    match entries.find? key with
    | none => (within? change path []).map fun inner => entries ++ [(key, .table .implied inner)]
    | some (.table .inline _) => none
    | some (.table origin inner) => (within? change path inner).map fun inner =>
        entries.replace key (.table origin inner)
    | some (.tables last earlier) => (within? change path last).map fun last =>
        entries.replace key (.tables last earlier)
    | some _ => none

/-- Gives a key a table of its own, which may have been implied before. -/
def openTable? (key : String) (entries : Entries) : Option Entries :=
  match entries.find? key with
  | none => some (entries ++ [(key, .table .header [])])
  | some (.table .implied inner) => some (entries.erase key ++ [(key, .table .header inner)])
  | some _ => none

/-- Gives a key one more table. -/
def openNext? (key : String) (entries : Entries) : Option Entries :=
  match entries.find? key with
  | none => some (entries ++ [(key, .tables [] [])])
  | some (.tables last earlier) => some (entries.replace key (.tables [] (last :: earlier)))
  | some _ => none

/-- The table of dotted keys and values, if they go together. -/
def ofPairs? (pairs : List (List String × Value)) : Option Entries :=
  pairs.foldlM (fun entries pair => entries.insert? pair.2 pair.1) []

@[simp] theorem insert?_singleton (value : Value) (key : String) (entries : Entries) :
    entries.insert? value [key] = entries.add? key value := rfl

end Entries
end ArithLexer.Toml
