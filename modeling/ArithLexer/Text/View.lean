import ArithLexer.Fault
import ArithLexer.Text.Utf8
import ArithLexer.Text.Quoted

/-!
# Text views

A view is a stretch of bytes cut out of a source. It compares by its bytes,
reads as text where the bytes are well-formed UTF-8, and can always be shown.
-/

namespace ArithLexer

structure View where
  bytes : List UInt8
  deriving DecidableEq, Repr

namespace View

def empty : View := ⟨[]⟩

instance : Inhabited View := ⟨empty⟩

/-- The `length` bytes of the source from `start` on. -/
def ofRange (source : Array UInt8) (start length : Nat) : Except Fault View :=
  if start + length ≤ source.size then .ok ⟨(source.extract start (start + length)).toList⟩
  else .error (.viewOutOfRange start length source.size)

theorem ofRange_of_le {source : Array UInt8} {start length : Nat}
    (h : start + length ≤ source.size) :
    ofRange source start length = .ok ⟨(source.toList.drop start).take length⟩ := by
  simp [ofRange, h, List.extract_eq_take_drop]

variable (v : View)

def length : Nat := v.bytes.length

def isEmpty : Bool := v.bytes.isEmpty

/-- The text of the view, if it is well formed. -/
def text? : Option String := Text.decode? v.bytes

/-- The text of the view, with a replacement character for each malformed piece. -/
def display : String := Text.decodeLossy v.bytes

/-- Whether the view holds exactly the UTF-8 form of a text. -/
def matchesText (text : String) : Bool := v.bytes == Text.encode text

def describe : String := s!"TextSpan({Text.quoteText v.display})"

end View
end ArithLexer
