import ArithLexer.Lexer.Lexeme
import ArithLexer.Config.Basic
import ArithLexer.Proofs.Traversal
import Mathlib.Tactic.SplitIfs

/-!
# Lexemes of a text

What the lexeme at an offset is follows from its first byte (`lexemeOf`), and
where it ends from the digits there (`lexemeEnd`). Reading agrees with both, as
`Cursor.readLexeme_behind_eq` says. A run of digits is never cut: from the front
of a lexeme, reading goes to a boundary (`boundary_lexemeEnd`).
-/

namespace ArithLexer

/-! ### Kinds of bytes -/

/-- Whether a byte starts no token and is no blank. -/
def isForeign (b : UInt8) : Bool := !isDigit b && (TokenKind.ofByte? b).isNone && !isBlank b

/-- Whether a byte ends a scan. -/
def Policy.stops (policy : Policy) (b : UInt8) : Bool :=
  b == quoteByte || policy == .reject && isForeign b

theorem ne_quoteByte_of_isDigit {b : UInt8} (hb : isDigit b = true) : b ≠ quoteByte := by
  rintro rfl
  exact absurd hb (by decide)

theorem isForeign_of_isDigit {b : UInt8} (hb : isDigit b = true) : isForeign b = false := by
  simp [isForeign, hb]

theorem isForeign_of_ofByte? {b : UInt8} {kind : TokenKind}
    (hb : TokenKind.ofByte? b = some kind) : isForeign b = false := by
  simp [isForeign, hb]

theorem isForeign_iff {b : UInt8} : isForeign b = true ↔
    isDigit b = false ∧ TokenKind.ofByte? b = none ∧ isBlank b = false := by
  simp [isForeign, and_assoc]

/-- The bytes of the single-byte kinds are neither digits nor reserved. -/
theorem not_isDigit_of_ofByte? {b : UInt8} {kind : TokenKind}
    (hb : TokenKind.ofByte? b = some kind) : isDigit b = false ∧ b ≠ quoteByte := by
  unfold TokenKind.ofByte? at hb
  split_ifs at hb <;> subst b <;> decide

theorem stops_of_not_isForeign {policy : Policy} {b : UInt8} (hq : b ≠ quoteByte)
    (hb : isForeign b = false) : policy.stops b = false := by
  simp [Policy.stops, hq, hb]

theorem ne_quoteByte_of_not_stops {policy : Policy} {b : UInt8} (hb : policy.stops b = false) :
    b ≠ quoteByte := by
  rintro rfl
  simp [Policy.stops] at hb

/-- Besides the double quote only foreign bytes stop a scan, where they are rejected. -/
theorem reject_of_stops {policy : Policy} {b : UInt8} (hq : b ≠ quoteByte)
    (hb : policy.stops b = true) : policy = .reject ∧ isForeign b = true := by
  simpa [Policy.stops, hq] using hb

theorem stops_of_isDigit {policy : Policy} {b : UInt8} (hb : isDigit b = true) :
    policy.stops b = false :=
  stops_of_not_isForeign (ne_quoteByte_of_isDigit hb) (isForeign_of_isDigit hb)

theorem not_isDigit_of_stops {policy : Policy} {b : UInt8} (hb : policy.stops b = true) :
    isDigit b = false := by
  by_contra hd
  rw [Bool.not_eq_false] at hd
  rw [stops_of_isDigit hd] at hb
  cases hb

/-! ### Searching forward -/

/-- The first offset from `p` on whose byte satisfies a test, or the end of the text. -/
def firstFrom (q : UInt8 → Bool) (text : List UInt8) (p : Nat) : Nat := p + (text.drop p).findIdx q

section FirstFrom

variable {q : UInt8 → Bool} {text : List UInt8} {p k : Nat}

@[simp] theorem firstFrom_zero : firstFrom q text 0 = text.findIdx q := by simp [firstFrom]

theorem le_firstFrom : p ≤ firstFrom q text p := Nat.le_add_right _ _

theorem firstFrom_le_length (hp : p ≤ text.length) : firstFrom q text p ≤ text.length := by
  have h : (text.drop p).findIdx q ≤ (text.drop p).length := List.findIdx_le_length
  rw [List.length_drop] at h
  unfold firstFrom
  omega

/-- The test fails before the offset found. -/
theorem not_of_lt_firstFrom {i : Nat} {b : UInt8} (hpi : p ≤ i) (hi : i < firstFrom q text p)
    (hb : text[i]? = some b) : q b = false := by
  have hlt : i - p < (text.drop p).findIdx q := by unfold firstFrom at hi; omega
  have hnot := List.not_of_lt_findIdx hlt
  have hget : (text.drop p)[i - p]? = some b := by
    rw [List.getElem?_drop, Nat.add_sub_cancel' hpi, hb]
  obtain ⟨_, hget⟩ := List.getElem?_eq_some_iff.mp hget
  rwa [hget] at hnot

/-- It holds at the offset found, unless the text ends there. -/
theorem of_getElem?_firstFrom {b : UInt8} (hb : text[firstFrom q text p]? = some b) :
    q b = true := by
  unfold firstFrom at hb
  rw [← List.getElem?_drop] at hb
  exact List.findIdx_of_getElem?_eq_some hb

theorem of_firstFrom_eq {b : UInt8} (hk : firstFrom q text p = k) (hb : text[k]? = some b) :
    q b = true := by
  subst k
  exact of_getElem?_firstFrom hb

/-- The two facts pin the offset down. -/
theorem firstFrom_eq (hpk : p ≤ k) (hk : k ≤ text.length)
    (hbefore : ∀ i b, p ≤ i → i < k → text[i]? = some b → q b = false)
    (hat : ∀ b, text[k]? = some b → q b = true) : firstFrom q text p = k := by
  rcases Nat.lt_trichotomy (firstFrom q text p) k with hlt | heq | hgt
  · have hlen : firstFrom q text p < text.length := by omega
    have hget := List.getElem?_eq_getElem hlen
    have hfalse := hbefore _ _ le_firstFrom hlt hget
    rw [of_getElem?_firstFrom hget] at hfalse
    cases hfalse
  · exact heq
  · have hlen : k < text.length := lt_of_lt_of_le hgt (firstFrom_le_length (by omega))
    have hget := List.getElem?_eq_getElem hlen
    have hfalse := not_of_lt_firstFrom hpk hgt hget
    rw [hat _ hget] at hfalse
    cases hfalse

/-- Searching again from an offset passed over finds the same. -/
theorem firstFrom_of_le {r : Nat} (hpr : p ≤ r) (hr : r ≤ firstFrom q text p)
    (hp : p ≤ text.length) : firstFrom q text r = firstFrom q text p := by
  refine firstFrom_eq hr (firstFrom_le_length hp) ?_ fun b hb => of_getElem?_firstFrom hb
  intro i b hi hlt hb
  exact not_of_lt_firstFrom (hpr.trans hi) hlt hb

theorem firstFrom_eq_self {b : UInt8} (hb : text[p]? = some b) (hq : q b = true) :
    firstFrom q text p = p := by
  obtain ⟨hlt, _⟩ := List.getElem?_eq_some_iff.mp hb
  refine firstFrom_eq le_rfl hlt.le (fun i b _ _ _ => by omega) fun c hc => ?_
  rw [hb] at hc
  cases hc
  exact hq

theorem lt_firstFrom {b : UInt8} (hb : text[p]? = some b) (hq : q b = false) :
    p < firstFrom q text p := by
  by_contra hle
  have heq : firstFrom q text p = p := le_antisymm (by omega) le_firstFrom
  have htrue := of_getElem?_firstFrom (q := q) (p := p) (heq.symm ▸ hb)
  rw [hq] at htrue
  cases htrue

end FirstFrom

/-! ### Runs of digits -/

section Runs

variable {text : List UInt8} {i j : Nat}

/-- Whether there is a digit at an offset. -/
def digitAt (text : List UInt8) (i : Nat) : Bool := text[i]?.any isDigit

/-- An offset that does not lie between two digits. -/
def Boundary (text : List UInt8) (i : Nat) : Prop :=
  ¬ (0 < i ∧ digitAt text (i - 1) = true ∧ digitAt text i = true)

instance : Decidable (Boundary text i) := inferInstanceAs (Decidable (¬ _))

/-- The digits from `i` up to `j`, none of which can be added on either side. -/
structure DigitRun (text : List UInt8) (i j : Nat) : Prop where
  start_lt_stop : i < j
  digits : ∀ n, i ≤ n → n < j → digitAt text n = true
  boundary : Boundary text i
  stop : digitAt text j = false

/-- Where the digits from an offset on end. -/
def digitsEnd (text : List UInt8) (i : Nat) : Nat := firstFrom (fun b => !isDigit b) text i

theorem digitAt_of_getElem? {b : UInt8} (hb : text[i]? = some b) :
    digitAt text i = isDigit b := by simp [digitAt, hb]

theorem lt_length_of_digitAt (hi : digitAt text i = true) : i < text.length := by
  obtain ⟨b, hb, _⟩ := (Option.any_eq_true _ _).mp hi
  exact (List.getElem?_eq_some_iff.mp hb).1

theorem boundary_zero : Boundary text 0 := fun h => Nat.lt_irrefl 0 h.1

theorem not_digitAt_length : digitAt text text.length = false := by simp [digitAt]

theorem boundary_of_not_digitAt (hi : digitAt text i = false) : Boundary text i := by
  rintro ⟨_, _, h⟩
  rw [hi] at h
  cases h

theorem boundary_succ (hi : digitAt text i = false) : Boundary text (i + 1) := by
  rintro ⟨_, h, _⟩
  rw [Nat.add_sub_cancel, hi] at h
  cases h

theorem digitAt_of_lt_digitsEnd {n : Nat} (hi : i ≤ text.length) (hin : i ≤ n)
    (hn : n < digitsEnd text i) : digitAt text n = true := by
  have hlt : n < text.length := lt_of_lt_of_le hn (firstFrom_le_length hi)
  have hget := List.getElem?_eq_getElem hlt
  rw [digitAt_of_getElem? hget]
  simpa using not_of_lt_firstFrom hin hn hget

theorem not_digitAt_digitsEnd : digitAt text (digitsEnd text i) = false := by
  rw [digitAt, Option.any_eq_false]
  intro b hb
  simpa using of_getElem?_firstFrom hb

theorem lt_digitsEnd (hi : digitAt text i = true) : i < digitsEnd text i := by
  obtain ⟨b, hb, hd⟩ := (Option.any_eq_true _ _).mp hi
  exact lt_firstFrom hb (by simpa using hd)

theorem digitRun_digitsEnd (hi : digitAt text i = true) (hb : Boundary text i) :
    DigitRun text i (digitsEnd text i) where
  start_lt_stop := lt_digitsEnd hi
  digits _ := digitAt_of_lt_digitsEnd (lt_length_of_digitAt hi).le
  boundary := hb
  stop := not_digitAt_digitsEnd

namespace DigitRun

theorem digitAt_start (h : DigitRun text i j) : digitAt text i = true :=
  h.digits i le_rfl h.start_lt_stop

theorem stop_le_length (h : DigitRun text i j) : j ≤ text.length := by
  have hlast := lt_length_of_digitAt (h.digits (j - 1) (by have := h.start_lt_stop; omega)
    (by have := h.start_lt_stop; omega))
  omega

/-- A run is determined by where it starts. -/
theorem stop_eq (h : DigitRun text i j) : j = digitsEnd text i := by
  refine (firstFrom_eq h.start_lt_stop.le h.stop_le_length ?_ ?_).symm
  · intro n b hin hnj hb
    have hd := h.digits n hin hnj
    rw [digitAt_of_getElem? hb] at hd
    simp [hd]
  · intro b hb
    have hd := h.stop
    rw [digitAt_of_getElem? hb] at hd
    simp [hd]

end DigitRun

/-- Every digit belongs to a run. -/
theorem exists_digitRun (hi : digitAt text i = true) :
    ∃ n m, DigitRun text n m ∧ n ≤ i ∧ i < m := by
  induction i with
  | zero => exact ⟨0, _, digitRun_digitsEnd hi boundary_zero, le_rfl, lt_digitsEnd hi⟩
  | succ i ih =>
    by_cases hprev : digitAt text i = true
    · obtain ⟨n, m, hrun, hn, hm⟩ := ih hprev
      refine ⟨n, m, hrun, by omega, ?_⟩
      -- the run does not end at `i + 1`, for there is a digit
      by_contra hle
      have heq : m = i + 1 := by omega
      have hstop := hrun.stop
      rw [heq, hi] at hstop
      cases hstop
    · have hb := boundary_succ (Bool.eq_false_iff.mpr hprev)
      exact ⟨i + 1, _, digitRun_digitsEnd hi hb, le_rfl, lt_digitsEnd hi⟩

end Runs

/-! ### Lexemes -/

/-- The lexeme that starts with a byte. -/
def lexemeOf (b : UInt8) : Lexeme :=
  if b = quoteByte then .unsupported .stringLiteral
  else if isDigit b then .token .numericLiteral
  else
    match TokenKind.ofByte? b with
    | some kind => .token kind
    | none => .skipped b

/-- Where the lexeme at an offset ends. -/
def lexemeEnd (text : List UInt8) (i : Nat) : Nat :=
  if digitAt text i then digitsEnd text i else i + 1

section Lexemes

variable {text : List UInt8} {i : Nat} {b : UInt8}

theorem lexemeOf_of_isDigit (hb : isDigit b = true) : lexemeOf b = .token .numericLiteral := by
  simp [lexemeOf, ne_quoteByte_of_isDigit hb, hb]

theorem lexemeOf_of_ofByte? {kind : TokenKind} (hb : TokenKind.ofByte? b = some kind) :
    lexemeOf b = .token kind := by
  have h := not_isDigit_of_ofByte? hb
  simp [lexemeOf, h.1, h.2, hb]

theorem lexemeOf_of_ofByte?_eq_none (hq : b ≠ quoteByte) (hd : isDigit b = false)
    (hb : TokenKind.ofByte? b = none) : lexemeOf b = .skipped b := by
  simp [lexemeOf, hq, hd, hb]

theorem lexemeEnd_of_isDigit (hb : text[i]? = some b) (hd : isDigit b = true) :
    lexemeEnd text i = digitsEnd text i := by
  rw [lexemeEnd, digitAt_of_getElem? hb, if_pos hd]

theorem lexemeEnd_of_not_isDigit (hb : text[i]? = some b) (hd : isDigit b = false) :
    lexemeEnd text i = i + 1 := by
  rw [lexemeEnd, digitAt_of_getElem? hb, hd]
  rfl

theorem lt_lexemeEnd : i < lexemeEnd text i := by
  unfold lexemeEnd
  split
  · exact lt_digitsEnd ‹_›
  · exact Nat.lt_succ_self i

theorem lexemeEnd_le_length (hi : i < text.length) : lexemeEnd text i ≤ text.length := by
  unfold lexemeEnd
  split
  · exact firstFrom_le_length hi.le
  · exact hi

theorem lexemeEnd_le_size {source : Array UInt8} (hb : source.toList[i]? = some b) :
    lexemeEnd source.toList i ≤ source.size := by
  have hle := lexemeEnd_le_length (List.getElem?_eq_some_iff.mp hb).1
  rwa [Array.length_toList] at hle

theorem boundary_lexemeEnd : Boundary text (lexemeEnd text i) := by
  unfold lexemeEnd
  split
  · exact boundary_of_not_digitAt not_digitAt_digitsEnd
  · exact boundary_succ (Bool.eq_false_iff.mpr ‹_›)

end Lexemes

namespace Cursor

variable {source : Array UInt8} {n : Nat} {b : UInt8}

/-- Reading at an offset finds the lexeme of the text there, unless a counter ends in it. -/
theorem readLexeme_behind_eq (hb : source.toList[n]? = some b)
    (hc : Position.Countable source.toList n) :
    (behind source n).readLexeme =
      if Position.Countable source.toList (lexemeEnd source.toList n) then
        .ok (lexemeOf b, behind source (lexemeEnd source.toList n))
      else .error .positionOverflow := by
  have hadv := advance_behind_eq hb hc
  by_cases hnext : Position.Countable source.toList (n + 1)
  case neg =>
    rw [if_neg hnext] at hadv
    simp only [readLexeme, hadv]
    rw [if_neg fun h => hnext (h.mono lt_lexemeEnd)]
  rw [if_pos hnext] at hadv
  simp only [readLexeme, hadv, readRest, lexemeOf]
  by_cases hq : b = quoteByte
  · subst b
    rw [lexemeEnd_of_not_isDigit hb (by decide), if_pos hnext]
    rfl
  simp only [if_neg hq]
  by_cases hd : isDigit b = true
  · -- the digits behind the first one end where those from it on end
    have hend : n + 1 + ((source.toList.drop (n + 1)).takeWhile isDigit).length =
        lexemeEnd source.toList n := by
      rw [lexemeEnd_of_isDigit hb hd, digitsEnd, List.takeWhile_eq_take_findIdx_not,
        List.length_take, Nat.min_eq_left List.findIdx_le_length]
      refine (firstFrom_of_le (Nat.le_succ n) ?_ ?_)
      · exact lt_firstFrom hb (by simpa using hd)
      · exact (List.getElem?_eq_some_iff.mp hb).1.le
    simp only [if_pos hd]
    rw [eatWhile_behind_eq isDigit hnext, hend]
    split <;> rfl
  · simp only [if_neg hd]
    rw [lexemeEnd_of_not_isDigit hb (Bool.eq_false_iff.mpr hd), if_pos hnext]
    cases TokenKind.ofByte? b <;> rfl

theorem readLexeme_behind_of_none (hn : source.toList[n]? = none) :
    (behind source n).readLexeme = .ok (.finished, behind source n) := by
  simp only [readLexeme, advance_behind_of_none hn]

end Cursor
end ArithLexer
