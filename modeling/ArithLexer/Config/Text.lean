import ArithLexer.Config.Error
import ArithLexer.Toml.Document

/-!
# Settings as text

Settings are written as one line each and read from any document: a setting
that is not there keeps its default, other keys are passed over, and of several
wrong settings the one that comes first in the document is told. What was read
is validated, what is written is not.
-/

namespace ArithLexer
namespace Config

open Toml

/-- The policy of a name, which has to be known. -/
def policyNamed (name : String) : Except ConfigError Policy :=
  match Policy.ofName? name with
  | some policy => .ok policy
  | none => .error (.unknownPolicy name)

/-- A table or an array without content. -/
def holdsNothing : Value → Bool
  | .table _ [] => true
  | .array [] => true
  | _ => false

/-- The policy that a value stands for: its name, or a table whose only key is its
name and holds nothing. -/
def policyOf : Value → Except ConfigError Policy
  | .string name => policyNamed name
  | .table _ [(name, content)] => do
    let policy ← policyNamed name
    if holdsNothing content then return policy else throw .malformed
  | _ => .error .malformed

/-- The capacity that a value stands for. -/
def capacityOf : Value → Except ConfigError Nat
  | .integer n => if 0 ≤ n then .ok n.toNat else .error (.negativeCapacity n)
  | _ => .error .malformed

/-- Takes over one entry of a document. -/
def apply (c : Config) (entry : String × Value) : Except ConfigError Config := do
  if entry.1 = ConfigError.unknownCharsKey then
    return { c with unknownChars := ← policyOf entry.2 }
  else if entry.1 = ConfigError.initialCapacityKey then
    return { c with initialCapacity := ← capacityOf entry.2 }
  else return c

def ofEntries (entries : Entries) : Except ConfigError Config := entries.foldlM apply default

/-- The settings that a text asks for. -/
def ofText (text : String) : Except ConfigError Config :=
  match parse text with
  | none => .error .malformed
  | some entries => do
    let c ← ofEntries entries
    c.validate
    return c

def policyLine (c : Config) : String :=
  s!"{ConfigError.unknownCharsKey} = \"{c.unknownChars.name}\"\n"

def capacityLine (c : Config) : String :=
  s!"{ConfigError.initialCapacityKey} = {c.initialCapacity}\n"

/-- The settings as text, if the capacity is a number that a document can hold. -/
def toText? (c : Config) : Option String :=
  if inRange c.initialCapacity then some (c.policyLine ++ c.capacityLine) else none

end Config
end ArithLexer
