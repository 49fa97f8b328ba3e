import ArithLexer.Position
import Mathlib.Algebra.Group.Nat.Defs
import Mathlib.Data.List.DropRight

/-!
# Places in a text

A position is a function of the bytes before it: one line for every line feed,
and one column for every byte of the last line. `Position.step_behind_eq` says
that stepping byte by byte counts exactly this, as long as the counters last.
Spans are placed by the position of their first byte.
-/

namespace ArithLexer

namespace Position

/-- The position behind some bytes. -/
def behind (bytes : List UInt8) : Position where
  offset := bytes.length
  line := 1 + bytes.count lineFeed
  column := 1 + (bytes.rtakeWhile (· != lineFeed)).length

@[simp] theorem offset_behind (bytes : List UInt8) : (behind bytes).offset = bytes.length := rfl

theorem behind_concat_lineFeed (bytes : List UInt8) :
    behind (bytes ++ [lineFeed]) = ⟨bytes.length + 1, (behind bytes).line + 1, 1⟩ := by
  simp [behind, Nat.add_assoc]

theorem behind_concat_of_ne (bytes : List UInt8) {b : UInt8} (hb : b ≠ lineFeed) :
    behind (bytes ++ [b]) = ⟨bytes.length + 1, (behind bytes).line, (behind bytes).column + 1⟩ := by
  simp [behind, hb, Nat.add_assoc]

theorem line_behind_le (bytes : List UInt8) : (behind bytes).line ≤ bytes.length + 1 := by
  have h := List.count_le_length (a := lineFeed) (l := bytes)
  simp only [behind]
  omega

theorem column_behind_le (bytes : List UInt8) : (behind bytes).column ≤ bytes.length + 1 := by
  have h := (List.rtakeWhile_suffix (· != lineFeed) bytes).length_le
  simp only [behind]
  omega

/-- The lines and columns up to an offset do not pass the largest counter. -/
def Countable (text : List UInt8) (n : Nat) : Prop :=
  ∀ m ≤ n, (behind (text.take m)).line ≤ counterMax ∧ (behind (text.take m)).column ≤ counterMax

theorem Countable.mono {text : List UInt8} {m n : Nat} (h : Countable text n) (hmn : m ≤ n) :
    Countable text m := fun i hi => h i (hi.trans hmn)

theorem countable_zero (text : List UInt8) : Countable text 0 := by
  intro m hm
  rw [Nat.le_zero.mp hm, List.take_zero]
  exact ⟨by decide, by decide⟩

theorem countable_of_length_lt {text : List UInt8} (h : text.length < counterMax) (n : Nat) :
    Countable text n := by
  intro m _
  have hlen : (text.take m).length ≤ text.length := List.length_take_le' m text
  have hline := line_behind_le (text.take m)
  have hcolumn := column_behind_le (text.take m)
  omega

instance (text : List UInt8) (n : Nat) : Decidable (Countable text n) :=
  inferInstanceAs (Decidable (∀ m ≤ n, _))

theorem Countable.succ_iff {text : List UInt8} {n : Nat} (h : Countable text n) :
    Countable text (n + 1) ↔ (behind (text.take (n + 1))).line ≤ counterMax ∧
      (behind (text.take (n + 1))).column ≤ counterMax := by
  constructor
  · intro h'
    exact h' (n + 1) le_rfl
  · intro hlast m hm
    rcases Nat.lt_or_eq_of_le hm with hlt | rfl
    · exact h m (Nat.lt_succ_iff.mp hlt)
    · exact hlast

/-- Behind the end there is nothing left to count. -/
theorem Countable.of_length_le {text : List UInt8} {m n : Nat} (h : Countable text m)
    (hm : text.length ≤ m) : Countable text n := by
  intro i _
  by_cases hi : i ≤ m
  · exact h i hi
  · have htake : text.take i = text.take m := by
      rw [List.take_of_length_le hm, List.take_of_length_le (by omega)]
    rw [htake]
    exact h m le_rfl

/-- Stepping over the next byte leads to the position behind it, unless a counter ends. -/
theorem step_behind_eq {text : List UInt8} {n : Nat} {b : UInt8} (hb : text[n]? = some b)
    (hc : Countable text n) : (behind (text.take n)).step b =
      if Countable text (n + 1) then .ok (behind (text.take (n + 1)))
      else .error .positionOverflow := by
  have hn := hc n le_rfl
  have hiff := hc.succ_iff
  rw [List.take_add_one, hb, Option.toList_some] at hiff ⊢
  by_cases hlf : b = lineFeed
  · subst b
    rw [behind_concat_lineFeed] at hiff ⊢
    have hcount : Countable text (n + 1) ↔ (behind (text.take n)).line < counterMax := by
      have hone : 1 ≤ counterMax := by decide
      rw [hiff]
      dsimp only
      omega
    simp only [step, if_true, hcount]
    rfl
  · rw [behind_concat_of_ne _ hlf] at hiff ⊢
    have hcount : Countable text (n + 1) ↔ (behind (text.take n)).column < counterMax := by
      rw [hiff]
      dsimp only
      omega
    simp only [step, if_neg hlf, hcount]
    rfl

end Position

namespace Span

/-- The span of a stretch of text. -/
def between (text : List UInt8) (i j : Nat) : Span :=
  let first := Position.behind (text.take i)
  ⟨i, j, first.line, first.column⟩

@[simp] theorem start_between (text : List UInt8) (i j : Nat) : (between text i j).start = i := rfl

@[simp] theorem stop_between (text : List UInt8) (i j : Nat) : (between text i j).stop = j := rfl

/-- A span that covers at least one byte of the text and tells the place of the first. -/
structure Placed (text : List UInt8) (s : Span) : Prop where
  start_lt_stop : s.start < s.stop
  stop_le_length : s.stop ≤ text.length
  line_eq : s.line = 1 + (text.take s.start).count lineFeed
  column_eq : s.column = 1 + ((text.take s.start).rtakeWhile (· != lineFeed)).length

theorem placed_between {text : List UInt8} {i j : Nat} (hij : i < j) (hj : j ≤ text.length) :
    Placed text (between text i j) := ⟨hij, hj, rfl, rfl⟩

theorem placed_byte {text : List UInt8} {i : Nat} {b : UInt8} (hb : text[i]? = some b) :
    Placed text (between text i (i + 1)) :=
  placed_between (Nat.lt_succ_self i) (List.getElem?_eq_some_iff.mp hb).1

end Span

theorem Position.spanTo_behind {text : List UInt8} {i j : Nat} (hij : i ≤ j)
    (hi : i ≤ text.length) :
    (Position.behind (text.take i)).spanTo j = .ok (Span.between text i j) := by
  simp only [spanTo, offset_behind, List.length_take, Nat.min_eq_left hi]
  exact Span.new_of_le hij _ _

end ArithLexer
