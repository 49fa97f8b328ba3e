import ArithLexer.Position

/-!
# Cursors

A cursor reads a source byte by byte and knows its position. What an operation
does is told by the unread bytes: advancing takes the first of them
(`unread_advance`), and each loop ends because `remaining`, their number, goes
down (`remaining_pass`).
-/

namespace ArithLexer

structure Cursor where
  source : Array UInt8
  position : Position
  deriving Repr

namespace Cursor

def new (source : Array UInt8) : Cursor := ⟨source, .start⟩

variable (c : Cursor)

/-- The same source from its start. -/
def reset : Cursor := new c.source

def offset : Nat := c.position.offset

def unread : List UInt8 := c.source.toList.drop c.offset

/-- The number of bytes that are not read. -/
def remaining : Nat := c.source.size - c.offset

def current? : Option UInt8 := c.source[c.offset]?

/-- The byte `ahead` places behind the next one. -/
def peek (ahead : Nat) : Except Fault (Option UInt8) :=
  if c.offset + ahead ≤ sizeMax then .ok c.source[c.offset + ahead]? else .error .offsetOverflow

def atEnd : Bool := decide (c.source.size ≤ c.offset)

/-- Moves over a byte that is known to be the next one. -/
def pass (b : UInt8) : Except Fault Cursor := do
  let position ← c.position.step b
  return { c with position }

def advance : Except Fault (Option UInt8 × Cursor) :=
  match c.current? with
  | none => .ok (none, c)
  | some b => do
    let c ← c.pass b
    return (some b, c)

@[simp] theorem length_unread : c.unread.length = c.remaining := by
  simp [unread, remaining]

theorem current?_eq_head? : c.current? = c.unread.head? := by
  simp [current?, unread, List.head?_drop]

theorem offset_lt_of_current? {c : Cursor} {b : UInt8} (h : c.current? = some b) :
    c.offset < c.source.size := by
  obtain ⟨h, _⟩ := Array.getElem?_eq_some_iff.mp h
  exact h

theorem source_pass {c d : Cursor} {b : UInt8} (h : c.pass b = .ok d) : d.source = c.source := by
  unfold pass at h
  cases hp : c.position.step b <;> rw [hp] at h <;> cases h
  rfl

theorem offset_pass {c d : Cursor} {b : UInt8} (h : c.pass b = .ok d) :
    d.offset = c.offset + 1 := by
  unfold pass at h
  cases hp : c.position.step b with
  | error f => rw [hp] at h; cases h
  | ok q =>
    rw [hp] at h
    cases h
    exact c.position.offset_step hp

theorem remaining_pass {c d : Cursor} {b : UInt8} (hb : c.current? = some b)
    (h : c.pass b = .ok d) : d.remaining < c.remaining := by
  have hlt := offset_lt_of_current? hb
  simp only [remaining, source_pass h, offset_pass h]
  omega

theorem unread_pass {c d : Cursor} {b : UInt8} (hb : c.current? = some b) (h : c.pass b = .ok d) :
    c.unread = b :: d.unread := by
  obtain ⟨hlt, hb⟩ := Array.getElem?_eq_some_iff.mp hb
  simp only [unread, source_pass h, offset_pass h]
  rw [List.drop_eq_getElem_cons (by simpa using hlt)]
  simp [hb]

/-- Advancing takes the first of the unread bytes. -/
theorem unread_advance {c d : Cursor} {b : UInt8} (h : c.advance = .ok (some b, d)) :
    c.unread = b :: d.unread := by
  unfold advance at h
  split at h
  · cases h
  · rename_i b' hb
    cases ho : c.pass b' with
    | error f => rw [ho] at h; cases h
    | ok d' => rw [ho] at h; cases h; exact unread_pass hb ho

/-- Reads bytes as long as they are accepted. The test may count or remember:
it takes a state along, and the state behind its last call is returned. -/
def eatWhileFrom {σ : Type} (accept : σ → UInt8 → Bool × σ) (state : σ) (c : Cursor) :
    Except Fault (σ × Cursor) :=
  match _hb : c.current? with
  | none => .ok (state, c)
  | some b =>
    let (accepted, state) := accept state b
    if accepted then
      match _ho : c.pass b with
      | .error fault => .error fault
      | .ok d => eatWhileFrom accept state d
    else .ok (state, c)
termination_by c.remaining
decreasing_by exact remaining_pass _hb _ho

/-- Reads bytes as long as they satisfy a predicate. -/
def eatWhile (p : UInt8 → Bool) : Except Fault Cursor :=
  (c.eatWhileFrom (fun _ b => (p b, ())) ()).map Prod.snd

theorem source_eatWhileFrom {σ : Type} {accept : σ → UInt8 → Bool × σ} {state state' : σ}
    {c d : Cursor} (h : c.eatWhileFrom accept state = .ok (state', d)) :
    d.source = c.source ∧ c.offset ≤ d.offset := by
  fun_induction eatWhileFrom accept state c with
  | case1 => cases h; exact ⟨rfl, Nat.le_refl _⟩
  | case2 => cases h
  | case3 _ _ _ _ _ _ ho _ ih =>
    obtain ⟨hsrc, hoff⟩ := ih h
    exact ⟨hsrc.trans (source_pass ho), by rw [offset_pass ho] at hoff; omega⟩
  | case4 => cases h; exact ⟨rfl, Nat.le_refl _⟩

theorem source_eatWhile {p : UInt8 → Bool} {c d : Cursor} (h : c.eatWhile p = .ok d) :
    d.source = c.source ∧ c.offset ≤ d.offset := by
  unfold eatWhile at h
  cases he : c.eatWhileFrom (fun _ b => (p b, ())) () with
  | error f => rw [he] at h; cases h
  | ok r =>
    rw [he] at h
    cases h
    exact source_eatWhileFrom he

/-- The bytes from an offset up to the position. -/
def sliceFrom (start : Nat) : Except Fault (List UInt8) :=
  if start ≤ c.offset then .ok (c.source.extract start c.offset).toList else .error .reversedSlice

/-- The results of advancing a number of times. -/
def advanceMany : (count : Nat) → Cursor → Except Fault (List (Option UInt8) × Cursor)
  | 0, c => .ok ([], c)
  | count + 1, c => do
    let (byte, c) ← c.advance
    let (bytes, c) ← advanceMany count c
    return (byte :: bytes, c)

end Cursor
end ArithLexer
