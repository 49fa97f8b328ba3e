import ArithLexer.Proofs.Allocations

/-!
# Requests after a release

A released arena keeps its newest block, and that block still counts against
the limit. So it does not serve all that a fresh arena would:
`request_after_release_iff` says when it does. The block that was kept must have
room, or the limit must leave room for one more block beside it, and the search
for that block considers a single size (`findBlock_once`).
-/

namespace ArithLexer
namespace Arena

/-! ### When a request is granted -/

section Granted

variable {a b : Arena} {size align wanted found : Nat}

theorem request_ok_iff : (∃ region, (a.request size).1 = .ok region) ↔
    size = 0 ∨ size ≤ largestRequest ∧
      ((a.carve (roundUp size maxAlign) maxAlign).isSome = true ∨
        (a.findBlock (roundUp size maxAlign) maxAlign
          (a.firstWanted (roundUp size maxAlign))).isSome = true) := by
  rw [← reserve_isSome_iff (Nat.dvd_refl _), request]
  split
  · next hsize => simp [hsize]
  next hsize =>
  split
  · next hlarge =>
    have hnot : ¬ size ≤ largestRequest := Nat.not_le.mpr hlarge
    simp [hsize, hnot]
  next hlarge =>
  dsimp only
  have hle := Nat.not_lt.mp hlarge
  split
  · next h => simp [h, hsize]
  · next h => simp [h, hle]

/-- The limit and the blocks alone tell whether a request is granted. -/
theorem findBlock_congr (hlimit : a.limit = b.limit) (hblocks : a.blocks = b.blocks) :
    a.findBlock size align wanted = b.findBlock size align wanted := by
  have htotal : a.allocatedBytes = b.allocatedBytes := by rw [allocatedBytes, hblocks]; rfl
  have hadmits : ∀ n, a.admits n = b.admits n := by
    intro n
    rw [admits, admits, hlimit, htotal]
  have hwant : ∀ w, a.mayWant size w = b.mayWant size w := by
    intro w
    rw [mayWant, mayWant, hlimit, htotal]
  fun_induction findBlock a size align wanted with
  | case1 wanted hpos hwanted n hadmitted =>
    rw [hwant] at hwanted
    rw [hadmits] at hadmitted
    rw [findBlock, dif_pos hpos, if_pos hwanted, if_pos hadmitted]
  | case2 wanted hpos hwanted n hadmitted ih =>
    rw [hwant] at hwanted
    rw [hadmits] at hadmitted
    rw [ih, findBlock.eq_1 b size align wanted, dif_pos hpos, if_pos hwanted, if_neg hadmitted]
  | case3 wanted hpos hwanted =>
    rw [hwant] at hwanted
    rw [findBlock, dif_pos hpos, if_neg hwanted]
  | case4 wanted hpos => rw [findBlock, dif_neg hpos]

theorem request_ok_congr (hlimit : a.limit = b.limit) (hblocks : a.blocks = b.blocks) :
    (∃ region, (a.request size).1 = .ok region) ↔ ∃ region, (b.request size).1 = .ok region := by
  have hcarve : ∀ n, (a.carve n maxAlign).isSome = (b.carve n maxAlign).isSome := by
    intro n
    rw [carve, carve, hblocks]
    cases b.blocks with
    | nil => by_cases hn : n = 0 <;> simp [hn]
    | cons newest older => simp only [Option.isSome_map]
  have hfirst : ∀ n, a.firstWanted n = b.firstWanted n := by
    intro n
    rw [firstWanted, firstWanted, hblocks]
  rw [request_ok_iff, request_ok_iff, hcarve, hfirst, findBlock_congr hlimit hblocks]

/-- A search that may not go on with half the size considers a single one. -/
theorem findBlock_once (hpos : 0 < wanted) (hhalf : a.mayWant size (wanted / 2) = false) :
    (a.findBlock size align wanted).isSome =
      (a.mayWant size wanted && a.admits (Block.sizeFor wanted size align)) := by
  have hstop : a.findBlock size align (wanted / 2) = none := by
    rw [findBlock, hhalf]
    simp
  rw [findBlock, dif_pos hpos]
  cases a.mayWant size wanted with
  | false => rfl
  | true =>
    dsimp only
    cases a.admits (Block.sizeFor wanted size align) with
    | false => simp [hstop]
    | true => rfl

end Granted

/-! ### The block that a release keeps -/

/-- Whether an arena serves a request again once it is released: if it keeps a block, then that
block has room, or one more block beside it can be had within the limit. -/
def ServesAgain (a : Arena) (size : Nat) : Prop :=
  ∀ kept ∈ a.blocks.head?,
    let rounded := roundUp size maxAlign
    let found := Block.sizeFor (max (2 * kept.size) (max rounded Block.leastSize)) rounded maxAlign
    rounded ≤ kept.size ∨
      found < memoryLimit ∧ ∀ limit ∈ a.limit, kept.size + found ≤ limit

instance (a : Arena) (size : Nat) : Decidable (a.ServesAgain size) :=
  inferInstanceAs (Decidable (∀ kept ∈ a.blocks.head?, _ ∨ _))

section ServesAgain

variable {a : Arena} {size found : Nat}

theorem admits_iff : a.admits found = true ↔
    found < memoryLimit ∧ ∀ limit ∈ a.limit, a.allocatedBytes + found ≤ limit := by
  unfold admits
  rw [Bool.and_eq_true, decide_eq_true_iff]
  cases a.limit <;> simp

/-- An arena that holds something looks for blocks of the least size at least. -/
theorem mayWant_of_pos (h : 0 < a.allocatedBytes) (wanted : Nat) :
    a.mayWant size wanted = decide (max size Block.leastSize ≤ wanted) := by
  unfold mayWant
  have hne : a.allocatedBytes ≠ 0 := Nat.ne_of_gt h
  cases a.limit <;> simp [hne]

/-- A released arena serves a request if its one block does, alone or with another. -/
theorem release_request_ok_iff (ha : a.Stacked) {kept : Block} {older : List Block}
    (hblocks : a.blocks = kept :: older) (hsize : size ≤ largestRequest) :
    (∃ region, (a.release.request size).1 = .ok region) ↔ a.ServesAgain size := by
  have hrelease : a.release.blocks = [Block.fresh kept.base kept.size] := by
    rw [release, hblocks]
    rfl
  have htotal : a.release.allocatedBytes = kept.size := by
    rw [allocatedBytes, hrelease]
    rfl
  have hkept : kept.size % maxAlign = 0 :=
    Nat.mod_eq_zero_of_dvd (ha.aligned kept (by simp [hblocks])).2
  have hpos : 0 < kept.size := ha.positive kept (by simp [hblocks])
  have hcarve : (a.release.carve (roundUp size maxAlign) maxAlign).isSome = true ↔
      roundUp size maxAlign ≤ kept.size := by
    rw [carve, hrelease]
    simp only [Option.isSome_map, Option.isSome_iff_ne_none, ne_eq, Block.carve_eq_none_iff,
      Block.fresh, hkept, Nat.sub_zero, Nat.not_lt,
      roundUp_of_dvd (dvd_roundUp size maxAlign) (by decide : 0 < maxAlign)]
  have hfirst : a.release.firstWanted (roundUp size maxAlign) =
      max (2 * kept.size) (max (roundUp size maxAlign) Block.leastSize) := by
    rw [firstWanted, hrelease]
    rfl
  have hserves : a.ServesAgain size ↔ roundUp size maxAlign ≤ kept.size ∨
      a.release.admits (Block.sizeFor
        (max (2 * kept.size) (max (roundUp size maxAlign) Block.leastSize))
        (roundUp size maxAlign) maxAlign) = true := by
    rw [admits_iff, htotal]
    simp [ServesAgain, hblocks, release]
  rw [request_ok_iff, hcarve, hserves, hfirst]
  by_cases hroom : roundUp size maxAlign ≤ kept.size
  · simp [hroom, hsize]
  · have hne : size ≠ 0 := by
      rintro rfl
      rw [roundUp_zero] at hroom
      exact hroom (Nat.zero_le _)
    have hleast : 0 < Block.leastSize := by decide
    have hwant : ∀ w, a.release.mayWant (roundUp size maxAlign) w =
        decide (max (roundUp size maxAlign) Block.leastSize ≤ w) :=
      mayWant_of_pos (by rwa [htotal])
    -- half the first wanted size is at most the kept block, which has no room
    rw [findBlock_once (by omega) (by rw [hwant]; exact decide_eq_false (by omega)), hwant,
      decide_eq_true (Nat.le_max_right _ _)]
    simp [hroom, hne, hsize]

end ServesAgain

/-! ### What operations do to the blocks -/

/-- What an operation other than a release can do to an arena, apart from its memory. -/
inductive Advances (a : Arena) : Arena → Prop
  | written (memory : Memory) : Advances a { a with memory := memory }
  | reserved {size start : Nat} {b : Arena} (align : Alignment) (memory : Memory)
      (h : Reserved a size align.bytes (some start) b) : Advances a { b with memory := memory }

/-- What an operation can do to an arena, apart from its memory. -/
inductive Evolves (a : Arena) : Arena → Prop
  | written (memory : Memory) : Evolves a { a with memory := memory }
  | reserved {size start : Nat} {b : Arena} (align : Alignment) (memory : Memory)
      (h : Reserved a size align.bytes (some start) b) : Evolves a { b with memory := memory }
  | released : Evolves a a.release

section Evolves

variable {a b : Arena} {size : Nat} {region : Region}

theorem Advances.refl (a : Arena) : a.Advances a := .written a.memory

theorem Advances.evolves (h : a.Advances b) : a.Evolves b := by
  cases h with
  | written memory => exact .written memory
  | reserved align memory h => exact .reserved align memory h

theorem request_advances {answer : Except RequestError Region}
    (h : a.request size = (answer, b)) : a.Advances b := by
  have hrequest := request_spec a size
  rw [h] at hrequest
  cases hrequest with
  | empty => exact .refl _
  | overflow => exact .refl _
  | refused => exact .refl _
  | granted _ _ hreserved => exact .reserved .strictest _ hreserved

theorem demand_advances (h : a.demand size = .ok (region, b)) : a.Advances b := by
  unfold demand at h
  split at h
  · next hrequest =>
    cases h
    exact request_advances hrequest
  · cases h

theorem store_advances (align : Alignment) {bytes : List UInt8}
    (h : a.store bytes align.bytes = .ok (region, b)) :
    a.Advances b := by
  have hstored := store_spec a bytes align.dvd_maxAlign
  rw [h] at hstored
  cases hstored with
  | granted hreserved => exact .reserved align _ hreserved

theorem Evolves.limit_eq (h : a.Evolves b) : b.limit = a.limit := by
  cases h with
  | written => rfl
  | reserved _ _ hreserved => exact hreserved.limit_eq
  | released => rfl

/-- No operation takes the last block away. -/
theorem Evolves.blocks_eq_nil (h : a.Evolves b) (hb : b.blocks = []) : a.blocks = [] := by
  cases h with
  | written => exact hb
  | reserved _ _ hreserved =>
    cases hreserved with
    | nothing hblocks => exact hblocks
    | carved => cases hb
    | acquired => cases hb
  | released =>
    unfold release at hb
    simpa using hb

end Evolves

end Arena

namespace Session

variable {s : Session} {op : Operation} {ops : List Operation}

theorem keep_advances {stored : Except Fault (Region × Arena)} {align : Alignment}
    {content : List UInt8} (h : ∀ region a, stored = .ok (region, a) → s.arena.Advances a) :
    s.arena.Advances (s.keep stored align content).2.arena := by
  unfold keep
  split
  · exact h _ _ rfl
  · exact .refl _

/-- Filling an allocation changes nothing of the arena but its memory. -/
theorem arena_fill (s : Session) (index : Nat) (byte : UInt8) :
    ∃ memory, (s.perform (.fill index byte)).2.arena = { s.arena with memory := memory } := by
  unfold perform
  dsimp only
  split
  · exact ⟨s.arena.memory, rfl⟩
  · exact ⟨_, rfl⟩

/-- Nor does changing a word of it. -/
theorem arena_modifyWord (s : Session) (index : Nat) (width : Alignment) (f : Nat → Nat) :
    ∃ memory,
      (s.perform (.modifyWord index width f)).2.arena = { s.arena with memory := memory } := by
  unfold perform
  dsimp only
  split
  · exact ⟨s.arena.memory, rfl⟩
  · split
    · exact ⟨_, rfl⟩
    · exact ⟨s.arena.memory, rfl⟩

theorem perform_advances (s : Session) (hop : op ≠ .release) :
    s.arena.Advances (s.perform op).2.arena := by
  cases op with
  | request size =>
    unfold perform
    dsimp only
    split
    · next h => exact Arena.request_advances h
    · next h => exact Arena.request_advances h
  | demand size => exact keep_advances fun _ _ h => Arena.demand_advances h
  | storeBytes bytes => exact keep_advances fun _ _ h => Arena.store_advances .one h
  | storeWords width words => exact keep_advances fun _ _ h => Arena.store_advances width h
  | storeView v => exact keep_advances fun _ _ h => Arena.store_advances .one h
  | fill index byte =>
    obtain ⟨memory, h⟩ := s.arena_fill index byte
    rw [h]
    exact .written memory
  | modifyWord index width f =>
    obtain ⟨memory, h⟩ := s.arena_modifyWord index width f
    rw [h]
    exact .written memory
  | release => exact absurd rfl hop

theorem perform_evolves (s : Session) (op : Operation) :
    s.arena.Evolves (s.perform op).2.arena := by
  by_cases hop : op = .release
  · subst hop
    exact .released
  · exact (perform_advances s hop).evolves

theorem run_limit_eq (s : Session) (ops : List Operation) :
    (run ops s).2.arena.limit = s.arena.limit := by
  induction ops generalizing s with
  | nil => rfl
  | cons op ops ih => exact (ih _).trans (perform_evolves s op).limit_eq

theorem run_blocks_eq_nil (h : (run ops s).2.arena.blocks = []) : s.arena.blocks = [] := by
  induction ops generalizing s with
  | nil => exact h
  | cons op ops ih => exact (perform_evolves s op).blocks_eq_nil (ih h)

/-- After a release an arena serves a request that it served when it was created, if and only
if the block that it keeps leaves room for it. What it serves are zeros. -/
theorem request_after_release_iff {a : Arena} (ha : a.Created) (ops : List Operation)
    {size : Nat} {region : Region} (hfresh : (a.request size).1 = .ok region) :
    ∃ outcomes s, run ops (start a) = (outcomes, s) ∧
      ((∃ region, (s.arena.release.request size).1 = .ok region) ↔ s.arena.ServesAgain size) ∧
      ∀ region b, s.arena.release.request size = (.ok region, b) →
        region.length = size ∧ b.read region = List.replicate size 0 := by
  have hs := run_sound (sound_start ha.stacked) ops
  refine ⟨_, _, rfl, ?_, ?_⟩
  · have hsize : size ≤ Arena.largestRequest := by
      rcases Arena.request_ok_iff.mp ⟨region, hfresh⟩ with rfl | ⟨hsize, -⟩
      · exact Nat.zero_le _
      · exact hsize
    cases hblocks : (run ops (start a)).2.arena.blocks with
    | cons kept older => exact Arena.release_request_ok_iff hs.stacked hblocks hsize
    | nil =>
      -- nothing was ever taken, so the arena is a fresh one but for its memory
      have hsame : (run ops (start a)).2.arena.release.blocks = a.blocks := by
        rw [Arena.release, hblocks]
        exact (run_blocks_eq_nil hblocks).symm
      have hlimit : (run ops (start a)).2.arena.release.limit = a.limit :=
        run_limit_eq (start a) ops
      rw [Arena.request_ok_congr hlimit hsame, Arena.ServesAgain, hblocks]
      exact iff_of_true ⟨region, hfresh⟩ (by simp)
  · intro region b h
    have hnew := (sound_release hs).request h
    have hlength := hnew.length_content List.mem_cons_self
    rw [List.length_replicate] at hlength
    exact ⟨hlength.symm, hnew.content _ List.mem_cons_self⟩

/-- Under a limit that leaves room for a second block. -/
theorem request_after_release_of_room :
    ∃ region, ((run [.request 16] (start (.withLimit 2000))).2.arena.release.request 900).1 =
      .ok region := by
  have hfresh : ((Arena.withLimit 2000).request 900).1 = .ok ⟨48, 900⟩ := by decide +kernel
  obtain ⟨outcomes, s, hrun, hserves, -⟩ :=
    request_after_release_iff (.withLimit 2000) [.request 16] hfresh
  rw [hrun, hserves]
  have hs : s = (run [.request 16] (start (.withLimit 2000))).2 := by rw [hrun]
  rw [hs]
  decide +kernel

/-- Under a limit that does not, the block of 448 bytes that is kept stands in the way of what
a fresh arena would have. -/
theorem request_after_release_refused :
    ((Arena.withLimit 1000).request 900).1 = .ok ⟨48, 900⟩ ∧
      ((run [.request 16, .release] (start (.withLimit 1000))).2.arena.request 900).1 =
        .error (.outOfMemory 912) := by
  constructor
  · decide +kernel
  · decide +kernel

end Session
end ArithLexer
