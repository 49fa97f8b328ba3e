import ArithLexer.Config.Text
import ArithLexer.Text.Utf8

/-!
# Settings in a file

A path leads from a directory to one of its files, to a directory, or
nowhere. Parts of a path that are empty or a single dot do not count; two dots
lead to a directory that is there and of which nothing else is known.
-/

namespace ArithLexer

/-- The parts of a path that count. -/
def pathParts (path : String) : List String :=
  (path.splitOn "/").filter fun part => part ≠ "" ∧ part ≠ "."

/-- A directory: the bytes of its files by the parts of their paths. -/
structure Directory where
  files : List (List String × List UInt8)

namespace Directory

def empty : Directory := ⟨[]⟩

def write (d : Directory) (path : String) (content : List UInt8) : Directory :=
  ⟨(pathParts path, content) :: d.files⟩

def read (d : Directory) (path : String) : Except ReadFailure (List UInt8) :=
  let parts := pathParts path
  if path = "" then .error .notFound
  else if parts.all (· == "..") then .error .isDirectory
  else
    match d.files.lookup parts with
    | some content => .ok content
    | none => .error .notFound

def readText (d : Directory) (path : String) : Except ReadFailure String := do
  let content ← d.read path
  match Text.decode? content with
  | some text => return text
  | none => throw .notText

end Directory

namespace Config

/-- The settings that the file at a path asks for. -/
def load (d : Directory) (path : String) : Except ConfigError Config :=
  match d.readText path with
  | .ok text => ofText text
  | .error cause => .error (.unreadable path cause)

end Config
end ArithLexer
