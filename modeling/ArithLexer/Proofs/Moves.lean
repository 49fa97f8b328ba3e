import ArithLexer.Proofs.Capacities

/-!
# Moved items

A buffer that grows may have to move all items that it holds; a push for which there is room
moves none (`moved`). Since a buffer grows by half, the items that are pushed repay the moves, four
for each of them, and at most half as much room again is set aside. The capacities on the way have
no closed form, because the half of an odd one is rounded down, so the moves are not summed up.
They stay below three times the capacity, which repays the next growth with what the rounding
leaves (`four_mul_le_nextCapacity`), and so below four times the items (`Repaid`). This holds of a
buffer that has not moved anything, and every push keeps it (`Repaid.push`), hence every run.
-/

namespace ArithLexer
namespace Buffer

/-! ### Growing by half -/

section Growth

variable {c : Nat}

/-- Three halves of a capacity, rounded down, are still at least four thirds of it: the small ones
for which they are not grow to the least capacity. -/
theorem four_mul_le_nextCapacity (h : nextCapacity c ≠ sizeMax) : 4 * c ≤ 3 * nextCapacity c := by
  rw [nextCapacity_eq] at h ⊢
  omega

theorem nextCapacity_le_half_more (c : Nat) : nextCapacity c ≤ max 10 (c + c / 2) := by
  rw [nextCapacity_eq]
  exact Nat.min_le_right _ _

theorem nextCapacity_sizeMax : nextCapacity sizeMax = sizeMax := by decide

end Growth

/-! ### Moves and pushes -/

section Moves

variable {α : Type} {b : Buffer α} {item : α} {start moves : Nat}

/-- How many items a push may move: all that the buffer holds if it grows, else none. -/
def movedBy (b : Buffer α) (item : α) : Nat :=
  if (b.push item).capacity = b.capacity then 0 else b.length

/-- How many items may be moved in all while items are pushed one after the other. -/
def moved (b : Buffer α) : List α → Nat
  | [] => 0
  | item :: items => b.movedBy item + (b.push item).moved items

theorem movedBy_of_room (h : (b.push item).capacity = b.capacity) : b.movedBy item = 0 := if_pos h

theorem movedBy_of_grows (h : (b.push item).capacity ≠ b.capacity) : b.movedBy item = b.length :=
  if_neg h

/-- A buffer that grows was full, and its capacity was not yet the largest one. -/
theorem full_of_grows (h : (b.push item).capacity ≠ b.capacity) :
    b.length = b.capacity ∧ b.capacity ≠ sizeMax ∧
      (b.push item).capacity = nextCapacity b.capacity := by
  rw [capacity_push] at h ⊢
  by_cases hfull : b.length = b.capacity
  · rw [if_pos hfull] at h ⊢
    refine ⟨hfull, ?_, rfl⟩
    intro hmax
    rw [hmax, nextCapacity_sizeMax] at h
    exact h rfl
  · rw [if_neg hfull] at h
    exact absurd rfl h

/-- A buffer whose items repay the moves that there were since it had its starting capacity. -/
structure Repaid (start : Nat) (b : Buffer α) (moves : Nat) : Prop where
  moves_le_length : moves ≤ 4 * b.length
  moves_le_capacity : b.capacity ≠ sizeMax → moves ≤ 3 * b.capacity
  capacity_le : b.capacity ≤ max start (max 10 (b.length + b.length / 2))

theorem repaid_start (b : Buffer α) : Repaid b.capacity b 0 where
  moves_le_length := Nat.zero_le _
  moves_le_capacity _ := Nat.zero_le _
  capacity_le := Nat.le_max_left _ _

theorem Repaid.push (h : Repaid start b moves) (item : α) :
    Repaid start (b.push item) (moves + b.movedBy item) := by
  have hlength := h.moves_le_length
  have hcapacity := h.capacity_le
  by_cases hgrows : (b.push item).capacity = b.capacity
  · rw [movedBy_of_room hgrows, Nat.add_zero]
    constructor
    · rw [length_push]
      omega
    · rw [hgrows]
      exact h.moves_le_capacity
    · rw [hgrows, length_push]
      omega
  · obtain ⟨hfull, hmax, hnext⟩ := full_of_grows hgrows
    -- all items are moved, as many as the capacity, on top of three times as many
    have htotal : moves + b.movedBy item ≤ 4 * b.capacity := by
      have hmoves := h.moves_le_capacity hmax
      rw [movedBy_of_grows hgrows]
      omega
    constructor
    · rw [length_push]
      omega
    · rw [hnext]
      intro hnot
      exact Nat.le_trans htotal (four_mul_le_nextCapacity hnot)
    · have hhalf := nextCapacity_le_half_more b.capacity
      rw [hnext, length_push]
      omega

theorem Repaid.extend (h : Repaid start b moves) (items : List α) :
    Repaid start (b.extend items) (moves + b.moved items) := by
  induction items generalizing b moves with
  | nil => exact h
  | cons item items ih =>
    have hrest := ih (h.push item)
    rwa [Nat.add_assoc] at hrest

/-- An empty buffer of any capacity, whether it was just made or released, moves at most four items
for each that is pushed into it. In the end it has no larger a capacity than the one it started
from, the least one, or room for half as many items again as it holds. -/
theorem pushes_repay_moves (h : b.isEmpty = true) (items : List α) :
    b.moved items ≤ 4 * items.length ∧
      (b.extend items).capacity ≤ max b.capacity (max 10 (items.length + items.length / 2)) := by
  have hempty : b.length = 0 := Array.isEmpty_iff_size_eq_zero.mp h
  have hrepaid := (repaid_start b).extend items
  have hlength : (b.extend items).length = items.length := by
    rw [length_extend, hempty, Nat.zero_add]
  have hmoves := hrepaid.moves_le_length
  have hcapacity := hrepaid.capacity_le
  rw [hlength] at hmoves hcapacity
  rw [Nat.zero_add] at hmoves
  exact ⟨hmoves, hcapacity⟩

/-- A released buffer grows from nothing to 10, 15, 22, 33 and 49 for forty items. -/
theorem pushes_repay_moves_after_release :
    (ofList [3, 5]).release.isEmpty = true ∧
      (ofList [3, 5]).release.moved (List.range 40) = 0 + 10 + 15 + 22 + 33 ∧
      (ofList [3, 5]).release.moved (List.range 40) ≤ 4 * 40 ∧
      ((ofList [3, 5]).release.extend (List.range 40)).capacity = 49 ∧
      ((ofList [3, 5]).release.extend (List.range 40)).capacity ≤ max 0 (max 10 (40 + 40 / 2)) := by
  obtain ⟨hmoved, hcapacity⟩ :=
    pushes_repay_moves (b := (ofList [3, 5]).release) rfl (List.range 40)
  exact ⟨rfl, rfl, hmoved, rfl, hcapacity⟩

end Moves

end Buffer
end ArithLexer
