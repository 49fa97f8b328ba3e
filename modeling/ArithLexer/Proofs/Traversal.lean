import ArithLexer.Cursor
import ArithLexer.Proofs.Places

/-!
# Traversing a source

A cursor that starts in front of a source is always the cursor behind some
number of its bytes (`Cursor.behind`), and what an operation does is told by
how that number changes. Moves are the operations that change it.
-/

namespace ArithLexer

/-- A source of this size does not exhaust the counters. -/
theorem countable_of_size_le {source : Array UInt8} (hs : source.size ≤ 2 ^ 32 - 2) (n : Nat) :
    Position.Countable source.toList n := by
  refine Position.countable_of_length_lt ?_ n
  rw [Array.length_toList, counterMax]
  omega

theorem lt_size_of_getElem? {source : Array UInt8} {n : Nat} {b : UInt8}
    (hb : source.toList[n]? = some b) : n < source.size := by
  have hlt := (List.getElem?_eq_some_iff.mp hb).1
  rwa [Array.length_toList] at hlt

namespace Cursor

variable {source : Array UInt8} {n : Nat}

/-- The cursor behind the first bytes of a source. -/
def behind (source : Array UInt8) (n : Nat) : Cursor := ⟨source, .behind (source.toList.take n)⟩

theorem new_eq_behind (source : Array UInt8) : new source = behind source 0 := rfl

@[simp] theorem source_behind : (behind source n).source = source := rfl

@[simp] theorem position_behind :
    (behind source n).position = .behind (source.toList.take n) := rfl

@[simp] theorem reset_behind : (behind source n).reset = behind source 0 := rfl

theorem offset_behind (hn : n ≤ source.size) : (behind source n).offset = n := by
  simp [offset, hn]

/-- All cursors behind the end are the same. -/
theorem behind_succ_of_size_le (hn : source.size ≤ n) :
    behind source (n + 1) = behind source n := by
  have hlength : source.toList.length ≤ n := by simpa using hn
  have hnext : source.toList.length ≤ n + 1 := by omega
  simp only [behind, List.take_of_length_le hlength, List.take_of_length_le hnext]

/-- A cursor that stands in a source, on the line and column of its offset. -/
structure Placed (source : Array UInt8) (c : Cursor) : Prop where
  source_eq : c.source = source
  offset_le_size : c.offset ≤ source.size
  line_eq : c.position.line = 1 + (source.toList.take c.offset).count lineFeed
  column_eq : c.position.column =
    1 + ((source.toList.take c.offset).rtakeWhile (· != lineFeed)).length

theorem placed_behind (hn : n ≤ source.size) : (behind source n).Placed source := by
  have hoffset := offset_behind hn
  refine ⟨rfl, ?_, ?_, ?_⟩
  · rwa [hoffset]
  · rw [hoffset]
    rfl
  · rw [hoffset]
    rfl

theorem current?_behind : (behind source n).current? = source.toList[n]? := by
  by_cases hn : n ≤ source.size
  · simp [current?, offset_behind hn]
  · have hle : source.size ≤ n := by omega
    simp [current?, offset, hle]

theorem atEnd_behind (hn : n ≤ source.size) :
    (behind source n).atEnd = decide (source.size ≤ n) := by
  rw [atEnd, offset_behind hn, source_behind]

theorem pass_behind_eq {b : UInt8} (hb : source.toList[n]? = some b)
    (hc : Position.Countable source.toList n) :
    (behind source n).pass b = if Position.Countable source.toList (n + 1) then
      .ok (behind source (n + 1)) else .error .positionOverflow := by
  unfold pass
  rw [position_behind, Position.step_behind_eq hb hc]
  split <;> rfl

theorem advance_behind_eq {b : UInt8} (hb : source.toList[n]? = some b)
    (hc : Position.Countable source.toList n) :
    (behind source n).advance = if Position.Countable source.toList (n + 1) then
      .ok (some b, behind source (n + 1)) else .error .positionOverflow := by
  unfold advance
  rw [current?_behind, hb]
  simp only [pass_behind_eq hb hc]
  split <;> rfl

theorem advance_behind {b : UInt8} (hb : source.toList[n]? = some b)
    (hc : Position.Countable source.toList (n + 1)) :
    (behind source n).advance = .ok (some b, behind source (n + 1)) := by
  rw [advance_behind_eq hb (hc.mono (Nat.le_succ n)), if_pos hc]

theorem advance_behind_of_none (hn : source.toList[n]? = none) :
    (behind source n).advance = .ok (none, behind source n) := by
  unfold advance
  rw [current?_behind, hn]

/-- How many of the bytes a test accepts one after the other, and the state behind its
last call. -/
def accepted {σ : Type} (accept : σ → UInt8 → Bool × σ) : σ → List UInt8 → Nat × σ
  | state, [] => (0, state)
  | state, b :: bytes =>
    if (accept state b).1 then
      let rest := accepted accept (accept state b).2 bytes
      (rest.1 + 1, rest.2)
    else (0, (accept state b).2)

theorem accepted_le_length {σ : Type} (accept : σ → UInt8 → Bool × σ) (state : σ)
    (bytes : List UInt8) : (accepted accept state bytes).1 ≤ bytes.length := by
  induction bytes generalizing state with
  | nil => simp [accepted]
  | cons b bytes ih =>
    simp only [accepted]
    split
    · have h := ih (accept state b).2
      simpa using h
    · simp

/-- A test without a state accepts the longest prefix that satisfies it. -/
theorem accepted_eq_takeWhile (p : UInt8 → Bool) (bytes : List UInt8) :
    (accepted (fun _ b => (p b, ())) () bytes).1 = (bytes.takeWhile p).length := by
  induction bytes with
  | nil => rfl
  | cons b bytes ih =>
    by_cases hb : p b = true
    · simp [accepted, hb, ih]
    · simp [accepted, hb]

theorem eatWhileFrom_behind_eq {σ : Type} (accept : σ → UInt8 → Bool × σ) (state : σ)
    (hc : Position.Countable source.toList n) :
    (behind source n).eatWhileFrom accept state =
      if Position.Countable source.toList
          (n + (accepted accept state (source.toList.drop n)).1) then
        .ok ((accepted accept state (source.toList.drop n)).2,
          behind source (n + (accepted accept state (source.toList.drop n)).1))
      else .error .positionOverflow := by
  induction hbytes : source.toList.drop n generalizing n state with
  | nil =>
    have hn : source.toList[n]? = none := by
      rw [← List.head?_drop, hbytes, List.head?_nil]
    rw [eatWhileFrom]
    split
    · exact (if_pos hc).symm
    · rename_i b hb
      rw [current?_behind, hn] at hb
      cases hb
  | cons b bytes ih =>
    have hb : source.toList[n]? = some b := by
      rw [← List.head?_drop, hbytes, List.head?_cons]
    have hrest : source.toList.drop (n + 1) = bytes := by
      rw [← List.tail_drop, hbytes, List.tail_cons]
    rw [eatWhileFrom]
    split
    · rename_i hb'
      rw [current?_behind, hb] at hb'
      cases hb'
    rename_i b' hb'
    rw [current?_behind, hb] at hb'
    cases hb'
    by_cases hacc : (accept state b).1 = true
    · simp only [accepted, hacc, if_true]
      have hpass := pass_behind_eq hb hc
      by_cases hnext : Position.Countable source.toList (n + 1)
      · rw [if_pos hnext] at hpass
        split
        · rename_i fault hp
          rw [hpass] at hp
          cases hp
        · rename_i d hp
          rw [hpass] at hp
          cases hp
          rw [ih (accept state b).2 hnext hrest]
          simp only [Nat.add_assoc, Nat.add_comm 1]
      · rw [if_neg hnext] at hpass
        rw [if_neg fun h => hnext (h.mono (by omega))]
        split
        · rename_i fault hp
          rw [hpass] at hp
          cases hp
          rfl
        · rename_i d hp
          rw [hpass] at hp
          cases hp
    · simp only [accepted, hacc, Bool.false_eq_true, if_false]
      exact (if_pos hc).symm

theorem eatWhileFrom_behind {σ : Type} (accept : σ → UInt8 → Bool × σ) (state : σ)
    (hc : Position.Countable source.toList
      (n + (accepted accept state (source.toList.drop n)).1)) :
    (behind source n).eatWhileFrom accept state =
      .ok ((accepted accept state (source.toList.drop n)).2,
        behind source (n + (accepted accept state (source.toList.drop n)).1)) := by
  rw [eatWhileFrom_behind_eq accept state (hc.mono (Nat.le_add_right _ _)), if_pos hc]

theorem eatWhile_behind_eq (p : UInt8 → Bool) (hc : Position.Countable source.toList n) :
    (behind source n).eatWhile p =
      if Position.Countable source.toList
          (n + ((source.toList.drop n).takeWhile p).length) then
        .ok (behind source (n + ((source.toList.drop n).takeWhile p).length))
      else .error .positionOverflow := by
  rw [← accepted_eq_takeWhile]
  unfold eatWhile
  rw [eatWhileFrom_behind_eq _ _ hc]
  split <;> rfl

/-- An operation that moves a cursor. The test of `eatWhile` may count or remember. -/
inductive Move : Type 1 where
  | advance
  | eatWhile {σ : Type} (accept : σ → UInt8 → Bool × σ) (state : σ)
  | reset

/-- The cursor after a move. -/
def Move.run : Move → Cursor → Except Fault Cursor
  | .advance, c => c.advance.map Prod.snd
  | .eatWhile accept state, c => (c.eatWhileFrom accept state).map Prod.snd
  | .reset, c => .ok c.reset

/-- The cursor after some moves. -/
def runMoves : List Move → Cursor → Except Fault Cursor
  | [], c => .ok c
  | move :: moves, c => do
    let c ← move.run c
    runMoves moves c

theorem run_behind (hc : ∀ m, Position.Countable source.toList m) (hn : n ≤ source.size)
    (move : Move) : ∃ m ≤ source.size, move.run (behind source n) = .ok (behind source m) := by
  cases move with
  | advance =>
    cases hb : source.toList[n]? with
    | none => exact ⟨n, hn, by simp [Move.run, advance_behind_of_none hb, Except.map]⟩
    | some b =>
      refine ⟨n + 1, lt_size_of_getElem? hb, ?_⟩
      simp [Move.run, advance_behind hb (hc _), Except.map]
  | eatWhile accept state =>
    have hle := accepted_le_length accept state (source.toList.drop n)
    rw [List.length_drop, Array.length_toList] at hle
    refine ⟨_, ?_, by rw [Move.run, eatWhileFrom_behind accept state (hc _)]; rfl⟩
    omega
  | reset => exact ⟨0, Nat.zero_le _, rfl⟩

/-- Whatever the moves, the cursor stays behind some number of bytes. -/
theorem runMoves_behind (hc : ∀ m, Position.Countable source.toList m) (hn : n ≤ source.size)
    (moves : List Move) :
    ∃ m ≤ source.size, runMoves moves (behind source n) = .ok (behind source m) := by
  induction moves generalizing n with
  | nil => exact ⟨n, hn, rfl⟩
  | cons move moves ih =>
    obtain ⟨m, hm, hrun⟩ := run_behind hc hn move
    obtain ⟨k, hk, hrest⟩ := ih hm
    refine ⟨k, hk, ?_⟩
    rw [runMoves, hrun]
    exact hrest

end Cursor
end ArithLexer
