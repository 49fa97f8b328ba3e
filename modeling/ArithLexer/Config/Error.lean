import ArithLexer.Config.Basic

/-!
# Configuration errors

Why no settings could be had from a text or a file. A message is given where
the cause lies with a setting or with the path; what is wrong with the syntax
of a text is not told.
-/

namespace ArithLexer

/-- Why a file could not be read as text. -/
inductive ReadFailure where
  | notFound
  | isDirectory
  | notText
  deriving DecidableEq, Repr

/-- Why there are no settings. -/
inductive ConfigError where
  | unreadable (path : String) (cause : ReadFailure)
  /-- The text is no document, or a setting has a value of another shape. -/
  | malformed
  | unknownPolicy (name : String)
  | negativeCapacity (n : Int)
  | capacityTooLarge (n : Nat)
  deriving DecidableEq, Repr

namespace ConfigError

def unknownCharsKey : String := "unknown_chars"

def initialCapacityKey : String := "initial_capacity"

/-- Why a value is not allowed, for the capacity of a file that is too large. -/
def capacityReason (n : Nat) : String := s!"is {n}, the maximum is {Config.maxInitialCapacity}"

/-- The text of an error. That of an unreadable file ends where the system's own
words would begin. -/
def message? : ConfigError → Option String
  | unreadable path _ => some s!"failed to read config file {path}: "
  | malformed => none
  | unknownPolicy name =>
    let known := String.intercalate ", " (Policy.all.map fun policy => s!"`{policy.name}`")
    some s!"unknown variant `{name}`, expected one of {known}"
  | negativeCapacity n => some s!"invalid value: integer `{n}`, expected usize"
  | capacityTooLarge n =>
    some s!"invalid lexer config: `{initialCapacityKey}` {capacityReason n}"

end ConfigError

namespace Config

/-- Accepts settings that a file may ask for. -/
def validate (c : Config) : Except ConfigError Unit :=
  if c.initialCapacity ≤ maxInitialCapacity then .ok ()
  else .error (.capacityTooLarge c.initialCapacity)

@[simp] theorem validate_eq_ok_iff (c : Config) :
    c.validate = .ok () ↔ c.initialCapacity ≤ maxInitialCapacity := by
  unfold validate
  split <;> simp_all

end Config
end ArithLexer
