import ArithLexer.Proofs.Shelves
import Mathlib.Algebra.Group.Nat.Defs
import Mathlib.Order.Bounds.Basic
import Mathlib.Order.Iterate

/-!
# Capacities

The capacity of a buffer is told by two numbers: the capacity that it started
from, when it was made or last released, and the largest number of items that
it held since. A run of buffers is followed by one that keeps these two beside
each buffer (`traced`); copies inherit both. Growing again and again leads from
the first number through ever larger capacities, and the buffer has the least of
them that is not below the second (`Fits`). This is what pushing keeps
(`Fits.push`), hence every change and every run.
-/

namespace ArithLexer
namespace Buffer

/-! ### Growing -/

section Growth

variable {c d start mark : Nat}

theorem ten_le_sizeMax : 10 ≤ sizeMax := by decide

theorem nextCapacity_eq (c : Nat) : nextCapacity c = min sizeMax (max 10 (c + c / 2)) := by
  have h := ten_le_sizeMax
  unfold nextCapacity initialCapacity
  omega

theorem nextCapacity_le (c : Nat) : nextCapacity c ≤ sizeMax := by
  rw [nextCapacity_eq]
  exact Nat.min_le_left _ _

theorem lt_nextCapacity (h : c < sizeMax) : c < nextCapacity c := by
  rw [nextCapacity_eq]
  omega

theorem le_nextCapacity (h : c ≤ sizeMax) : c ≤ nextCapacity c := by
  rw [nextCapacity_eq]
  omega

theorem monotone_nextCapacity : Monotone nextCapacity := by
  intro c d h
  rw [nextCapacity_eq, nextCapacity_eq]
  omega

theorem monotone_iterate_nextCapacity (h : start ≤ sizeMax) :
    Monotone fun n => nextCapacity^[n] start :=
  monotone_nextCapacity.monotone_iterate_of_le_map (le_nextCapacity h)

/-- The capacities that growing leads to and that have room for a number of items. -/
def grown (start mark : Nat) : Set Nat := {c | (∃ n, c = nextCapacity^[n] start) ∧ mark ≤ c}

theorem le_sizeMax_of_mem_grown (hstart : start ≤ sizeMax) (h : c ∈ grown start mark) :
    c ≤ sizeMax := by
  obtain ⟨⟨n, rfl⟩, -⟩ := h
  cases n with
  | zero => exact hstart
  | succ n =>
    rw [Function.iterate_succ_apply']
    exact nextCapacity_le _

theorem isLeast_grown_self (h : start ≤ sizeMax) : IsLeast (grown start 0) start := by
  constructor
  · exact ⟨⟨0, rfl⟩, Nat.zero_le _⟩
  · rintro d ⟨⟨n, rfl⟩, -⟩
    exact monotone_iterate_nextCapacity h (Nat.zero_le n)

/-- A capacity stays the least one as long as it has room. -/
theorem isLeast_grown_of_le {mark' : Nat} (h : IsLeast (grown start mark) c) (hle : mark ≤ mark')
    (hroom : mark' ≤ c) : IsLeast (grown start mark') c := by
  constructor
  · exact ⟨h.1.1, hroom⟩
  · rintro d ⟨hd, hmark⟩
    exact h.2 ⟨hd, Nat.le_trans hle hmark⟩

/-- For one item more than it has room for, the next capacity is the least one. -/
theorem isLeast_grown_succ (hstart : start ≤ sizeMax) (h : IsLeast (grown start mark) c)
    (hc : c < sizeMax) : IsLeast (grown start (c + 1)) (nextCapacity c) := by
  obtain ⟨⟨n, rfl⟩, -⟩ := h.1
  constructor
  · refine ⟨⟨n + 1, ?_⟩, lt_nextCapacity hc⟩
    rw [Function.iterate_succ_apply']
  · rintro d ⟨⟨k, rfl⟩, hlt⟩
    -- `k` growths lead further than `n`, so they are at least one more
    have hnk : n < k := by
      by_contra hkn
      have hle := monotone_iterate_nextCapacity hstart (Nat.not_lt.mp hkn)
      dsimp only at hle
      omega
    have hle := monotone_iterate_nextCapacity hstart (Nat.succ_le_of_lt hnk)
    dsimp only at hle
    rwa [Function.iterate_succ_apply'] at hle

end Growth

/-! ### Capacities and changes -/

section Changes

variable {α : Type} {b c : Buffer α}

@[simp] theorem length_push (b : Buffer α) (item : α) : (b.push item).length = b.length + 1 := by
  simp [push, length]

@[simp] theorem length_extend (b : Buffer α) (items : List α) :
    (b.extend items).length = b.length + items.length := by
  rw [← length_toList, toList_extend, List.length_append, length_toList]

theorem capacity_le_push (h : b.capacity ≤ sizeMax) (item : α) :
    b.capacity ≤ (b.push item).capacity ∧ (b.push item).capacity ≤ sizeMax := by
  rw [capacity_push]
  split
  · exact ⟨le_nextCapacity h, nextCapacity_le _⟩
  · exact ⟨Nat.le_refl _, h⟩

theorem capacity_le_extend (h : b.capacity ≤ sizeMax) (items : List α) :
    b.capacity ≤ (b.extend items).capacity := by
  induction items generalizing b with
  | nil => exact Nat.le_refl _
  | cons item items ih =>
    obtain ⟨hle, hmax⟩ := capacity_le_push h item
    exact Nat.le_trans hle (ih hmax)

theorem set_eq {index : Nat} {item : α} (h : b.set index item = .ok c) :
    c.length = b.length ∧ c.capacity = b.capacity := by
  unfold set at h
  split at h
  · cases h
    simp [length]
  · cases h

/-- A buffer gives up capacity only when it is released. -/
theorem capacity_le_apply (h : b.capacity ≤ sizeMax) {change : Change α}
    (hchange : change ≠ .release) (hc : change.apply b = .ok c) : b.capacity ≤ c.capacity := by
  cases change with
  | push item =>
    cases hc
    exact (capacity_le_push h item).1
  | extend items =>
    cases hc
    exact capacity_le_extend h items
  | set index item => exact Nat.le_of_eq (set_eq hc).2.symm
  | clear =>
    cases hc
    exact Nat.le_refl _
  | release => exact absurd rfl hchange

theorem capacity_push_ne_iff (h : b.length < sizeMax) (item : α) :
    (b.push item).capacity ≠ b.capacity ↔ b.length = b.capacity := by
  rw [capacity_push]
  constructor
  · intro hne
    by_contra hroom
    exact hne (if_neg hroom)
  · intro hfull
    rw [if_pos hfull]
    exact Nat.ne_of_gt (lt_nextCapacity (hfull ▸ h))

end Changes

/-! ### Where a capacity comes from -/

/-- A buffer, the capacity that it started from, and the largest number of items that it held
since then. -/
structure Traced (α : Type) where
  buffer : Buffer α
  start : Nat
  mark : Nat

section Traced

variable {α : Type}

/-- The capacity that a buffer starts from when it is made. -/
def Origin.start : Origin α → Nat
  | .empty => 10
  | .withCapacity requested reserve =>
    if reserve.covers (max requested 10) then max requested 10 else 10
  | .ofList _ => 10

/-- What is known of a buffer once a change has made another of it. -/
def Traced.follow (t : Traced α) (b : Buffer α) : Change α → Traced α
  | .release => ⟨b, 0, 0⟩
  | _ => ⟨b, t.start, max t.mark b.length⟩

/-- Buffers as sequences, with a record of where their capacities come from. -/
def traced [DecidableEq α] : Interface α (Traced α) where
  create origin := ⟨origin.create, origin.start, origin.create.length⟩
  change c t := (c.apply t.buffer).map fun b => t.follow b c
  get t := t.buffer.get
  lookup t := t.buffer.lookup
  items t := t.buffer.toList
  equal t u := t.buffer == u.buffer

theorem traced_refines_buffers [DecidableEq α] :
    Refines Traced.buffer (traced (α := α)) buffers where
  create _ := rfl
  change c t := by
    have hfollow : ∀ b, (t.follow b c).buffer = b := by
      intro b
      cases c <;> rfl
    change ((c.apply t.buffer).map fun b => t.follow b c).map Traced.buffer = c.apply t.buffer
    cases c.apply t.buffer with
    | error fault => rfl
    | ok b => exact congrArg Except.ok (hfollow b)
  get _ _ := rfl
  lookup _ _ := rfl
  items _ := rfl
  equal _ _ := rfl

/-- A buffer with the least capacity for what it held since it started. -/
structure Fits (t : Traced α) : Prop where
  start_le : t.start ≤ sizeMax
  length_le : t.buffer.length ≤ t.mark
  least : t.mark ≤ sizeMax → IsLeast (grown t.start t.mark) t.buffer.capacity

variable {t : Traced α}

/-- A buffer that holds no more than before, and has not grown. -/
theorem Fits.shrink (ht : Fits t) {b : Buffer α} (hlength : b.length ≤ t.buffer.length)
    (hcapacity : b.capacity = t.buffer.capacity) : Fits ⟨b, t.start, max t.mark b.length⟩ where
  start_le := ht.start_le
  length_le := Nat.le_max_right _ _
  least := by
    have hmark : max t.mark b.length = t.mark :=
      Nat.max_eq_left (Nat.le_trans hlength ht.length_le)
    dsimp only
    rw [hmark, hcapacity]
    exact ht.least

theorem Fits.push (ht : Fits t) (item : α) :
    Fits ⟨t.buffer.push item, t.start, max t.mark (t.buffer.push item).length⟩ where
  start_le := ht.start_le
  length_le := Nat.le_max_right _ _
  least := by
    dsimp only
    rw [length_push, capacity_push]
    intro hmax
    have hlength := ht.length_le
    have hleast := ht.least (Nat.le_trans (Nat.le_max_left _ _) hmax)
    have hroom : t.mark ≤ t.buffer.capacity := hleast.1.2
    by_cases hfull : t.buffer.length = t.buffer.capacity
    · -- the mark is the capacity too, and one item more takes the next one
      have hmark : max t.mark (t.buffer.length + 1) = t.buffer.capacity + 1 := by omega
      rw [if_pos hfull, hmark]
      exact isLeast_grown_succ ht.start_le hleast (by omega)
    · rw [if_neg hfull]
      exact isLeast_grown_of_le hleast (Nat.le_max_left _ _) (by omega)

theorem Fits.extend (ht : Fits t) (items : List α) :
    Fits ⟨t.buffer.extend items, t.start, max t.mark (t.buffer.extend items).length⟩ := by
  induction items generalizing t with
  | nil => exact ht.shrink (Nat.le_refl _) rfl
  | cons item items ih =>
    have hrest := ih (ht.push item)
    have hmark : max (max t.mark (t.buffer.push item).length)
        ((t.buffer.push item).extend items).length =
        max t.mark ((t.buffer.push item).extend items).length := by
      simp only [length_extend]
      omega
    dsimp only at hrest
    rwa [hmark] at hrest

theorem fits_released {b : Buffer α} (hlength : b.length = 0) (hcapacity : b.capacity = 0) :
    Fits ⟨b, 0, 0⟩ where
  start_le := Nat.zero_le _
  length_le := Nat.le_of_eq hlength
  least _ := by
    dsimp only
    rw [hcapacity]
    exact isLeast_grown_self (Nat.zero_le _)

theorem fits_empty : Fits (⟨empty, 10, 0⟩ : Traced α) where
  start_le := ten_le_sizeMax
  length_le := Nat.le_refl _
  least _ := isLeast_grown_self ten_le_sizeMax

theorem fits_withCapacity (requested : Nat) (reserve : Reserve) :
    Fits (⟨withCapacity requested reserve,
      (Origin.withCapacity requested reserve : Origin α).start, 0⟩ : Traced α) := by
  unfold withCapacity Origin.start initialCapacity
  dsimp only
  split
  · next h =>
    have hstart := reserve.le_sizeMax _ h
    exact ⟨hstart, Nat.le_refl _, fun _ => isLeast_grown_self hstart⟩
  · exact ⟨ten_le_sizeMax, Nat.le_refl _, fun _ => isLeast_grown_self ten_le_sizeMax⟩

-- what memory covers depends on the size of an item, and items of no bytes always fit
example : (Origin.withCapacity (2 ^ 46) (.ofSize 8) : Origin Nat).start = 10 := rfl
example : (Origin.withCapacity (2 ^ 50) (.ofSize 0) : Origin Unit).start = 2 ^ 50 := rfl

section Run

variable [DecidableEq α]

theorem fits_create (origin : Origin α) : Fits (traced.create origin) := by
  cases origin with
  | empty => exact fits_empty
  | withCapacity requested reserve =>
    have hlength : (withCapacity requested reserve : Buffer α).length = 0 := by
      rw [← length_toList, toList_withCapacity]
      rfl
    have hfits := fits_withCapacity (α := α) requested reserve
    rwa [← hlength] at hfits
  | ofList items =>
    have hfits := (fits_empty (α := α)).extend items
    dsimp only at hfits
    rwa [Nat.zero_max] at hfits

theorem fits_change (c : Change α) (t u : Traced α) (ht : Fits t)
    (h : traced.change c t = .ok u) : Fits u := by
  change (c.apply t.buffer).map _ = _ at h
  cases hc : c.apply t.buffer with
  | error fault =>
    rw [hc] at h
    cases h
  | ok b =>
    rw [hc] at h
    cases h
    cases c with
    | push item =>
      cases hc
      exact ht.push item
    | extend items =>
      cases hc
      exact ht.extend items
    | set index item =>
      obtain ⟨hlength, hcapacity⟩ := set_eq hc
      exact ht.shrink (Nat.le_of_eq hlength) hcapacity
    | clear =>
      cases hc
      exact ht.shrink (Nat.zero_le _) rfl
    | release =>
      cases hc
      exact fits_released rfl rfl

/-- Whatever is done to buffers, a buffer has the least capacity that growing leads to from the
one it started from and that has room for all that it held at once since then. So it has room
for its items, it gives up capacity only when it is released, and it grows if an item is pushed
while it is full, and only then. -/
theorem capacity_isLeast (ops : List (Operation α)) :
    (∀ c, nextCapacity c = min (2 ^ 64 - 1) (max 10 (c + c / 2)) ∧
      (c < 2 ^ 64 - 1 → c < nextCapacity c)) ∧
    ∃ replies shelf, run traced ops Shelf.vacant = (replies, shelf) ∧
      run buffers ops Shelf.vacant = (replies, shelf.map Traced.buffer) ∧
      ∀ name t, shelf name = some t → t.mark ≤ 2 ^ 64 - 1 →
        IsLeast {c | (∃ n, c = nextCapacity^[n] t.start) ∧ t.mark ≤ c} t.buffer.capacity ∧
        t.buffer.length ≤ t.buffer.capacity ∧
        t.buffer.length ≤ nextCapacity t.buffer.capacity ∧
        (∀ (change : Change α) b, change ≠ .release → change.apply t.buffer = .ok b →
          t.buffer.capacity ≤ b.capacity) ∧
        ∀ item, t.buffer.length < 2 ^ 64 - 1 →
          ((t.buffer.push item).capacity ≠ t.buffer.capacity ↔
            t.buffer.length = t.buffer.capacity) := by
  have hmax : sizeMax = 2 ^ 64 - 1 := by decide
  have hbuffers := run_map (traced_refines_buffers (α := α)) ops Shelf.vacant
  rw [← hmax]
  refine ⟨?_, _, _, rfl, hbuffers, ?_⟩
  · intro c
    exact ⟨nextCapacity_eq c, lt_nextCapacity⟩
  · intro name t ht hmark
    have hfits : Fits t :=
      run_forall fits_create fits_change (fun _ _ h => absurd h (by simp [Shelf.vacant])) ops name t ht
    have hleast := hfits.least hmark
    have hroom := Nat.le_trans hfits.length_le hleast.1.2
    have hcapacity := le_sizeMax_of_mem_grown hfits.start_le hleast.1
    refine ⟨hleast, hroom, Nat.le_trans hroom (le_nextCapacity hcapacity), ?_, ?_⟩
    · intro change b hchange hb
      exact capacity_le_apply hcapacity hchange hb
    · intro item hlength
      exact capacity_push_ne_iff hlength item

end Run

/-- A buffer that grew once is copied and cleared, the original is released and used again, and
a third one asks for more words than memory covers. -/
theorem capacity_isLeast_of_copy :
    ∃ replies shelf t u v,
      run traced [.create 0 .empty, .change 0 (.extend (List.range 11)), .copy 0 1,
        .change 0 .release, .change 0 (.push 5), .change 1 .clear,
        .create 2 (.withCapacity (2 ^ 46) (.ofSize 8))] Shelf.vacant = (replies, shelf) ∧
      shelf 0 = some t ∧ t.start = 0 ∧ t.mark = 1 ∧
      IsLeast {c | (∃ n, c = nextCapacity^[n] 0) ∧ 1 ≤ c} t.buffer.capacity ∧
      shelf 1 = some u ∧ u.start = 10 ∧ u.mark = 11 ∧
      IsLeast {c | (∃ n, c = nextCapacity^[n] 10) ∧ 11 ≤ c} u.buffer.capacity ∧
      shelf 2 = some v ∧ v.start = 10 ∧ v.mark = 0 ∧
      IsLeast {c | (∃ n, c = nextCapacity^[n] 10) ∧ 0 ≤ c} v.buffer.capacity := by
  obtain ⟨-, replies, shelf, hrun, -, hall⟩ :=
    capacity_isLeast (α := Nat) [.create 0 .empty, .change 0 (.extend (List.range 11)),
      .copy 0 1, .change 0 .release, .change 0 (.push 5), .change 1 .clear,
      .create 2 (.withCapacity (2 ^ 46) (.ofSize 8))]
  have hshelf := congrArg Prod.snd hrun
  dsimp only at hshelf
  have ht : shelf 0 = some ⟨⟨#[5], 10⟩, 0, 1⟩ := by
    rw [← hshelf]
    rfl
  have hu : shelf 1 = some ⟨⟨#[], 15⟩, 10, 11⟩ := by
    rw [← hshelf]
    rfl
  have hv : shelf 2 = some ⟨⟨#[], 10⟩, 10, 0⟩ := by
    rw [← hshelf]
    rfl
  obtain ⟨hleast, -⟩ := hall 0 _ ht (by decide)
  obtain ⟨hleast', -⟩ := hall 1 _ hu (by decide)
  obtain ⟨hleast'', -⟩ := hall 2 _ hv (by decide)
  exact ⟨replies, shelf, _, _, _, hrun, ht, rfl, rfl, hleast, hu, rfl, rfl, hleast',
    hv, rfl, rfl, hleast''⟩

end Traced

end Buffer
end ArithLexer
