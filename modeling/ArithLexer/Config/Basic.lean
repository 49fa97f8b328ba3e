import ArithLexer.Buffer

/-!
# Settings

The settings of a lexer: what happens to bytes that start no token, and how
many tokens it makes room for. A lexer accepts any settings; `Config.validate`
tells whether they are ones that a file may ask for.
-/

namespace ArithLexer

/-- What happens to a byte that starts no token and is no blank. -/
inductive Policy where
  /-- It is passed over. -/
  | skip
  /-- It is passed over and a diagnostic tells of it. -/
  | report
  /-- It ends the scan. -/
  | reject
  deriving DecidableEq, Repr

namespace Policy

instance : Inhabited Policy := ⟨skip⟩

/-- All policies, in the order in which messages name them. -/
def all : List Policy := [skip, report, reject]

/-- The name under which a policy is written. -/
def name : Policy → String
  | skip => "skip"
  | report => "report"
  | reject => "reject"

def ofName? (name : String) : Option Policy := all.find? fun policy => policy.name == name

@[simp] theorem ofName?_name (policy : Policy) : ofName? policy.name = some policy := by
  cases policy <;> decide

end Policy

structure Config where
  unknownChars : Policy
  initialCapacity : Nat
  deriving DecidableEq, Repr

namespace Config

/-- Unknown bytes are passed over and buffers start small. -/
def default : Config := ⟨.skip, Buffer.initialCapacity⟩

instance : Inhabited Config := ⟨default⟩

/-- The largest capacity that a file may ask for, two to the power of 24. -/
def maxInitialCapacity : Nat := 0x1000000

variable (c : Config)

def withUnknownChars (policy : Policy) : Config := { c with unknownChars := policy }

def isDefault : Bool := c == default

end Config
end ArithLexer
