import ArithLexer.Proofs.Releases
import Mathlib.Algebra.Group.Nat.Defs
import Mathlib.Order.Bounds.Defs

/-!
# Refused requests

A request is refused because its size cannot be rounded up, or because the arena
is out of memory for it (`Exhausted`): the newest block is full, and each block
that the search considers is forbidden by the limit or cannot be had. A block that
the search does take holds the request (`Block.carve_fresh`). So a refused request
has taken none, the session is what it was (`perform_of_refused`), and nothing that
is asked of it later can tell (`refused_request_leaves_no_trace`).
-/

namespace ArithLexer
namespace Arena

variable {a b : Arena} {size align wanted half : Nat}

/-! ### Searches that fail -/

theorem mayWant_iff : a.mayWant size wanted = true ↔ max size Block.leastSize ≤ wanted ∨
    ∃ limit ∈ a.limit, size < limit ∧ size ≤ wanted ∧ limit < Block.leastSize ∧
      a.allocatedBytes = 0 := by
  unfold mayWant
  rw [Bool.or_eq_true, decide_eq_true_iff]
  cases a.limit <;> simp

theorem le_of_mayWant (h : a.mayWant size wanted = true) : size ≤ wanted := by
  rcases mayWant_iff.mp h with hleast | ⟨limit, -, -, hle, -⟩
  · exact Nat.le_trans (Nat.le_max_left _ _) hleast
  · exact hle

theorem mayWant_mono (hle : half ≤ wanted) (h : a.mayWant size half = true) :
    a.mayWant size wanted = true := by
  rw [mayWant_iff] at h ⊢
  rcases h with hleast | ⟨limit, hlimit, hlt, hsize, hrest⟩
  · exact .inl (Nat.le_trans hleast hle)
  · exact .inr ⟨limit, hlimit, hlt, Nat.le_trans hsize hle, hrest⟩

/-- A search fails if it can take none of the blocks that it considers. -/
theorem findBlock_eq_none_iff (hsize : 0 < size) : a.findBlock size align wanted = none ↔
    ∀ k, a.mayWant size (wanted / 2 ^ k) = true →
      a.admits (Block.sizeFor (wanted / 2 ^ k) size align) = false := by
  fun_induction findBlock a size align wanted with
  | case1 wanted hpos hwant n hadmits =>
    constructor
    · intro h
      cases h
    · intro h
      have hrefused := h 0
      rw [Nat.pow_zero, Nat.div_one] at hrefused
      rw [hrefused hwant] at hadmits
      cases hadmits
  | case2 wanted hpos hwant n hadmits ih =>
    have hhalf : ∀ k, wanted / 2 / 2 ^ k = wanted / 2 ^ (k + 1) := by
      intro k
      rw [Nat.div_div_eq_div_mul, Nat.pow_succ']
    simp only [hhalf] at ih
    rw [ih]
    constructor
    · intro h k
      cases k with
      | zero => simpa using fun _ => hadmits
      | succ k => exact h k
    · intro h k
      exact h (k + 1)
  | case3 wanted hpos hwant =>
    apply iff_of_true rfl
    intro k hk
    exact absurd (mayWant_mono (Nat.div_le_self _ _) hk) hwant
  | case4 wanted hpos =>
    apply iff_of_true rfl
    intro k hk
    have hle := le_of_mayWant hk
    have hdiv := Nat.div_le_self wanted (2 ^ k)
    omega

/-- Out of memory for a stretch of this size: the newest block has no room for it, and no block
that is considered, each half as large as the one before, is within the limit and can be had. -/
def Exhausted (a : Arena) (size : Nat) : Prop :=
  a.carve size maxAlign = none ∧ ∀ k, a.mayWant size (a.firstWanted size / 2 ^ k) = true →
    a.admits (Block.sizeFor (a.firstWanted size / 2 ^ k) size maxAlign) = false

theorem Exhausted.pos (h : a.Exhausted size) : 0 < size := pos_of_carve_eq_none h.1

theorem reserve_eq_none_iff : (a.reserve size maxAlign).1 = none ↔ a.Exhausted size := by
  have hreserve : (a.reserve size maxAlign).1.isSome = true ↔ _ :=
    reserve_isSome_iff (Nat.dvd_refl maxAlign)
  rw [← Option.not_isSome_iff_eq_none, hreserve, not_or, Option.not_isSome_iff_eq_none,
    Option.not_isSome_iff_eq_none, Exhausted]
  apply and_congr_right
  intro hfull
  exact findBlock_eq_none_iff (pos_of_carve_eq_none hfull)

/-! ### Requests that fail -/

theorem request_overflow_iff :
    (a.request size).1 = .error (.sizeOverflow size) ↔ largestRequest < size := by
  have hrequest := request_spec a size
  generalize (a.request size).1 = answer, (a.request size).2 = b at hrequest
  cases hrequest with
  | empty hsize => simp [hsize]
  | overflow hsize => simp [hsize]
  | refused hpos hsize => simpa using hsize
  | granted hpos hsize => simpa using hsize

theorem request_outOfMemory_iff (hsize : size ≤ largestRequest) :
    (a.request size).1 = .error (.outOfMemory (roundUp size maxAlign)) ↔
      a.Exhausted (roundUp size maxAlign) := by
  unfold request
  split
  · next hzero =>
    apply iff_of_false
    · intro h
      cases h
    · intro h
      have hpos := h.pos
      rw [hzero, roundUp_zero] at hpos
      cases hpos
  next hpos =>
  rw [if_neg (Nat.not_lt.mpr hsize), ← reserve_eq_none_iff]
  dsimp only
  split
  · next h => simp [h]
  · next h => simp [h]

/-- There is no third answer to a request that can be rounded up. -/
theorem request_answers (a : Arena) (hsize : size ≤ largestRequest) :
    (∃ region, (a.request size).1 = .ok region ∧ region.length = size) ∨
      (a.request size).1 = .error (.outOfMemory (roundUp size maxAlign)) := by
  have hrequest := request_spec a size
  generalize (a.request size).1 = answer, (a.request size).2 = b at hrequest
  cases hrequest with
  | empty hzero => exact .inl ⟨_, rfl, hzero.symm⟩
  | overflow hlarge => exact absurd hsize (Nat.not_le.mpr hlarge)
  | refused => exact .inr rfl
  | granted => exact .inl ⟨_, rfl, rfl⟩

theorem request_eq_of_error {cause : RequestError} (h : (a.request size).1 = .error cause) :
    a.request size = (.error cause, a) := by
  have hsame : (a.request size).2 = a := request_error_eq (Prod.ext h rfl)
  exact Prod.ext h hsame

theorem demand_error_iff {fault : Fault} : a.demand size = .error fault ↔
    ∃ cause, (a.request size).1 = .error cause ∧ fault = .requestRefused cause := by
  unfold demand
  split
  · next region b h => simp [h]
  · next cause b h => simp [h, eq_comm]

theorem isLeast_roundUp (n : Nat) {align : Nat} (halign : 0 < align) :
    IsLeast {m | n ≤ m ∧ align ∣ m} (roundUp n align) := by
  constructor
  · exact ⟨le_roundUp n halign, dvd_roundUp n align⟩
  · rintro m ⟨hle, hdvd⟩
    exact roundUp_le hdvd hle halign

theorem roundUp_le_largestRequest (hsize : size ≤ largestRequest) :
    roundUp size maxAlign ≤ largestRequest :=
  roundUp_le (by decide) hsize (by decide)

end Arena

namespace Session

variable {s : Session} {size : Nat} {cause : RequestError}

/-- A request that is refused leaves the session as it was. -/
theorem perform_of_refused (h : (s.arena.request size).1 = .error cause) :
    s.perform (.request size) = (.refused cause, s) := by
  simp [perform, Arena.request_eq_of_error h]

/-- A request fails if its size cannot be rounded up, or else if the arena is out of memory for
the rounded size, and says so. One without bytes never fails. One that fails leaves no trace in
the session: whatever comes later, comes as if it had not been made. Demanding the bytes ends in
a fault exactly if requesting them fails, and the fault has the text of that error. -/
theorem refused_request_leaves_no_trace (s : Session) (size : Nat) :
    ((s.arena.request size).1 = .error (.sizeOverflow size) ↔ Arena.largestRequest < size) ∧
      (size ≤ Arena.largestRequest →
        IsLeast {n | size ≤ n ∧ maxAlign ∣ n} (roundUp size maxAlign) ∧
        roundUp size maxAlign ≤ Arena.largestRequest ∧
        ((s.arena.request size).1 = .error (.outOfMemory (roundUp size maxAlign)) ↔
          s.arena.Exhausted (roundUp size maxAlign)) ∧
        ((∃ region, (s.arena.request size).1 = .ok region ∧ region.length = size) ∨
          (s.arena.request size).1 = .error (.outOfMemory (roundUp size maxAlign)))) ∧
      s.arena.request 0 = (.ok .empty, s.arena) ∧
      (∀ cause, (s.arena.request size).1 = .error cause →
        (s.arena.request size).2 = s.arena ∧ s.perform (.request size) = (.refused cause, s) ∧
        ∀ later, run (.request size :: later) s =
          (.refused cause :: (run later s).1, (run later s).2)) ∧
      ∀ fault, s.arena.demand size = .error fault ↔
        ∃ cause, (s.arena.request size).1 = .error cause ∧ fault = .requestRefused cause ∧
          fault.message? = some cause.message := by
  refine ⟨Arena.request_overflow_iff, ?_, rfl, ?_, ?_⟩
  · intro hsize
    exact ⟨Arena.isLeast_roundUp size (by decide), Arena.roundUp_le_largestRequest hsize,
      Arena.request_outOfMemory_iff hsize, Arena.request_answers s.arena hsize⟩
  · intro cause h
    have hsame := Arena.request_eq_of_error h
    have hperform := perform_of_refused h
    refine ⟨by rw [hsame], hperform, ?_⟩
    intro later
    rw [run, hperform]
  · intro fault
    rw [Arena.demand_error_iff]
    constructor
    · rintro ⟨cause, h, rfl⟩
      exact ⟨cause, h, rfl, rfl⟩
    · rintro ⟨cause, h, rfl, -⟩
      exact ⟨cause, h, rfl⟩

/-- Under a limit of 1000 bytes, 448 of which the first block has taken. -/
theorem refused_request_leaves_no_trace_under_limit :
    ∃ s, (run [.request 16] (start (.withLimit 1000))).2 = s ∧
      (s.arena.request 900).1 = .error (.outOfMemory 912) ∧
      s.arena.Exhausted 912 ∧
      ∀ later, run (.request 900 :: later) s =
        (.refused (.outOfMemory 912) :: (run later s).1, (run later s).2) := by
  obtain ⟨-, hmemory, -, htrace, -⟩ :=
    refused_request_leaves_no_trace (run [.request 16] (start (.withLimit 1000))).2 900
  have hrequest : ((run [.request 16] (start (.withLimit 1000))).2.arena.request 900).1 =
      .error (.outOfMemory 912) := by decide +kernel
  obtain ⟨-, -, hexhausted, -⟩ := hmemory (by decide)
  obtain ⟨-, -, hlater⟩ := htrace _ hrequest
  exact ⟨_, rfl, hrequest, hexhausted.mp hrequest, hlater⟩

end Session
end ArithLexer
