import ArithLexer.Diagnostic.Code
import ArithLexer.Span

/-!
# Diagnostics

A diagnostic tells the user about a place in the source. A collector keeps the
diagnostics of a run in the order in which they were emitted.
-/

namespace ArithLexer

/-- How bad a diagnostic is; the worst comes first. -/
inductive Severity where
  | error
  | warning
  | note
  deriving DecidableEq, Repr

namespace Severity

def text : Severity → String
  | error => "error"
  | warning => "warning"
  | note => "note"

def rank : Severity → Nat
  | error => 0
  | warning => 1
  | note => 2

instance : Ord Severity := ⟨fun a b => compare a.rank b.rank⟩

end Severity

/-- A message about a place in the source. -/
structure Diagnostic where
  severity : Severity
  code : Option DiagnosticCode
  message : String
  span : Span
  deriving DecidableEq, Repr

namespace Diagnostic

def new (severity : Severity) (message : String) (span : Span) : Diagnostic :=
  ⟨severity, none, message, span⟩

def error (message : String) (span : Span) : Diagnostic := new .error message span

def warning (message : String) (span : Span) : Diagnostic := new .warning message span

variable (d : Diagnostic)

def withCode (code : DiagnosticCode) : Diagnostic := { d with code := some code }

def text : String :=
  let code := match d.code with
    | some code => s!"[{code.text}]"
    | none => ""
  s!"{d.severity.text}{code}: {d.message} at {d.span.line}:{d.span.column}"

end Diagnostic

/-- The diagnostics of a run, in order. -/
structure Collector where
  diagnostics : Array Diagnostic
  deriving DecidableEq, Repr

namespace Collector

def empty : Collector := ⟨#[]⟩

instance : Inhabited Collector := ⟨empty⟩

variable (c : Collector)

def toList : List Diagnostic := c.diagnostics.toList

def length : Nat := c.diagnostics.size

def isEmpty : Bool := c.diagnostics.isEmpty

def emit (d : Diagnostic) : Collector := ⟨c.diagnostics.push d⟩

/-- Hands out all diagnostics and keeps none. -/
def take : List Diagnostic × Collector := (c.toList, empty)

def errorCount : Nat := c.diagnostics.countP fun d => d.severity == .error

def hasErrors : Bool := c.diagnostics.any fun d => d.severity == .error

@[simp] theorem toList_emit (d : Diagnostic) : (c.emit d).toList = c.toList ++ [d] := by
  simp [emit, toList]

end Collector
end ArithLexer
