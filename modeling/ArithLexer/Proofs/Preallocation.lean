import ArithLexer.Proofs.Accounts
import Mathlib.Data.List.Forall2

/-!
# Preallocated arenas

An allocation of any alignment takes at most its size rounded up to the strictest
one (`Operation.cost`) from a room that is itself on the strictest alignment: what
it loses to its own alignment, it loses from the bytes that the rounding leaves
over (`Block.carve_of_room`). So one block serves all operations that cost no more
than its room, whatever their kinds and their order (`run_of_room`), and a release
gives back the room of the whole block (`HasRoom.release`).
-/

namespace ArithLexer

namespace Session.Operation

/-- The number of bytes that an operation asks for. -/
def size : Operation → Nat
  | .request size => size
  | .demand size => size
  | .storeBytes bytes => bytes.length
  | .storeWords width words => width.bytes * words.length
  | .storeView v => v.bytes.length
  | .fill _ _ => 0
  | .modifyWord _ _ _ => 0
  | .release => 0

/-- The size of an operation on the strictest alignment. -/
def cost (op : Operation) : Nat := roundUp op.size maxAlign

def totalCost (ops : List Operation) : Nat := (ops.map cost).sum

/-- Whether an operation asks for bytes of its own. -/
def Allocates : Operation → Prop
  | .fill _ _ => False
  | .modifyWord _ _ _ => False
  | .release => False
  | _ => True

/-- Whether an operation got the bytes that it asked for, if it asked for any. -/
def Succeeds (op : Operation) (outcome : Outcome) : Prop :=
  op.Allocates → ∃ p, outcome = .allocated p ∧ p.region.length = op.size

/-- Operations between two releases that cost no more than a budget. -/
structure Affordable (ops : List Operation) (budget : Nat) : Prop where
  no_release : .release ∉ ops
  totalCost_le : totalCost ops ≤ budget

namespace Affordable

variable {ops taken : List Operation} {budget more : Nat}

theorem mono (h : Affordable ops budget) (hle : budget ≤ more) : Affordable ops more :=
  ⟨h.no_release, Nat.le_trans h.totalCost_le hle⟩

/-- What comes first of some operations costs no more than all of them. -/
theorem of_prefix (h : Affordable ops budget) (htaken : taken <+: ops) :
    Affordable taken budget := by
  obtain ⟨rest, rfl⟩ := htaken
  constructor
  · exact fun hmem => h.no_release (List.mem_append_left rest hmem)
  · have hle := h.totalCost_le
    simp only [totalCost, List.map_append, List.sum_append] at hle ⊢
    omega

end Affordable

end Session.Operation

theorem length_flatMap_wordBytes (width : Nat) (words : List Nat) :
    (words.flatMap (wordBytes width)).length = width * words.length := by
  simp [List.length_flatMap, Nat.mul_comm]

/-- A room on the strictest alignment has a place for each allocation that costs no more, and
only its cost is missing afterwards. -/
theorem Block.carve_of_room {b : Block} {size align room : Nat} (halign : align ∣ maxAlign)
    (hroom : maxAlign ∣ room) (hfree : room ≤ b.free) (hcost : roundUp size maxAlign ≤ room) :
    ∃ start rest, b.carve size align = some (start, rest) ∧ rest.size = b.size ∧
      room - roundUp size maxAlign ≤ rest.free ∧ rest.free ≤ b.free := by
  have hpos : 0 < align := Nat.pos_of_dvd_of_pos halign (by decide)
  have hround := roundUp_le_roundUp halign (by decide) size
  -- the bytes that alignment loses are beyond the room
  have hlost : room ≤ b.free - b.free % align := by
    obtain ⟨k, rfl⟩ := Nat.dvd_trans halign hroom
    have hk : k ≤ b.free / align := (Nat.le_div_iff_mul_le hpos).mpr (by rwa [Nat.mul_comm])
    have hdiv := Nat.div_add_mod b.free align
    have hmul := Nat.mul_le_mul_left align hk
    omega
  cases h : b.carve size align with
  | none =>
    rw [carve_eq_none_iff] at h
    omega
  | some found =>
    obtain ⟨start, rest⟩ := found
    have hcarved := carved_of_carve h
    have hrest := hcarved.free_eq
    exact ⟨start, rest, rfl, hcarved.size_eq, by omega, by omega⟩

namespace Arena

/-- An arena with one block of some total size that has room for some bytes more. -/
structure HasRoom (a : Arena) (total room : Nat) : Prop where
  block : ∃ newest, a.blocks = [newest] ∧ newest.size = total ∧ room ≤ newest.free ∧
    newest.free ≤ total
  room_aligned : maxAlign ∣ room
  total_aligned : maxAlign ∣ total
  total_lt : total < memoryLimit

section HasRoom

variable {a : Arena} {total room size n : Nat}

theorem HasRoom.with_memory (h : a.HasRoom total room) (memory : Memory) :
    HasRoom { a with memory := memory } total room :=
  ⟨h.block, h.room_aligned, h.total_aligned, h.total_lt⟩

theorem HasRoom.room_le (h : a.HasRoom total room) : room ≤ total := by
  obtain ⟨newest, -, -, hroom, hfree⟩ := h.block
  exact Nat.le_trans hroom hfree

theorem HasRoom.sizes_eq (h : a.HasRoom total room) : a.sizes = [total] := by
  obtain ⟨newest, hblocks, hsize, -⟩ := h.block
  rw [sizes, hblocks, ← hsize]
  rfl

theorem HasRoom.blockCount_eq (h : a.HasRoom total room) : a.blockCount = 1 := by
  rw [blockCount_eq_length, h.sizes_eq]
  rfl

theorem HasRoom.allocatedBytes_eq (h : a.HasRoom total room) : a.allocatedBytes = total := by
  rw [allocatedBytes_eq_sum, h.sizes_eq]
  exact List.sum_singleton

/-- An arena that is made for some bytes has room for all of them. -/
theorem hasRoom_of_withCapacity (hn : 0 < n) (h : withCapacity n = .ok a) :
    ∃ total, n ≤ total ∧ a.HasRoom total total := by
  unfold withCapacity at h
  rw [if_neg (Nat.ne_of_gt hn)] at h
  dsimp only at h
  split at h
  · next hlt =>
    cases h
    have haligned := Block.maxAlign_dvd_sizeFor Block.leastSize n 1
    have hround : n ≤ roundUp n (max maxAlign 1) := le_roundUp n (by decide)
    have hmax := Block.max_le_sizeFor Block.leastSize n 1
    refine ⟨Block.sizeFor Block.leastSize n 1, by omega, ?_⟩
    exact ⟨⟨_, rfl, rfl, Nat.le_refl _, Nat.le_refl _⟩, haligned, haligned, hlt⟩
  · cases h

theorem HasRoom.release (h : a.HasRoom total room) : a.release.HasRoom total total := by
  obtain ⟨newest, hblocks, rfl, -⟩ := h.block
  refine ⟨⟨.fresh newest.base newest.size, ?_, rfl, Nat.le_refl _, Nat.le_refl _⟩,
    h.total_aligned, h.total_aligned, h.total_lt⟩
  rw [Arena.release, hblocks]
  rfl

theorem HasRoom.reserve (h : a.HasRoom total room) {align : Nat} (halign : align ∣ maxAlign)
    (hcost : roundUp size maxAlign ≤ room) : ∃ start b,
      a.reserve size align = (some start, b) ∧
        b.HasRoom total (room - roundUp size maxAlign) := by
  obtain ⟨newest, hblocks, hsize, hroom, hfree⟩ := h.block
  obtain ⟨start, rest, hcarve, hrest, hleft, hle⟩ :=
    Block.carve_of_room halign h.room_aligned hroom hcost
  have hcarved : a.carve size align = some (start, { a with blocks := [rest] }) := by
    simp only [carve, hblocks, hcarve, Option.map_some]
  refine ⟨start, { a with blocks := [rest] }, by rw [Arena.reserve, hcarved], ?_⟩
  exact ⟨⟨rest, rfl, by rw [hrest, hsize], hleft, by omega⟩,
    Nat.dvd_sub h.room_aligned (dvd_roundUp size maxAlign), h.total_aligned, h.total_lt⟩

theorem HasRoom.request (h : a.HasRoom total room) (hcost : roundUp size maxAlign ≤ room) :
    ∃ region b, a.request size = (.ok region, b) ∧ region.length = size ∧
      b.HasRoom total (room - roundUp size maxAlign) := by
  have hround : roundUp (roundUp size maxAlign) maxAlign = roundUp size maxAlign :=
    roundUp_of_dvd (dvd_roundUp _ _) (by decide)
  have hfits : ¬ largestRequest < size := by
    have hle : size ≤ roundUp size maxAlign := le_roundUp size (by decide)
    have hlt := h.total_lt
    have hroom := h.room_le
    have hlimit : memoryLimit ≤ largestRequest := by decide
    omega
  obtain ⟨start, b, hreserve, hleft⟩ := h.reserve (Nat.dvd_refl _) (by rwa [hround])
  rw [hround] at hleft
  by_cases hzero : size = 0
  · subst hzero
    rw [roundUp_zero, Nat.sub_zero]
    exact ⟨.empty, a, rfl, rfl, h⟩
  · refine ⟨⟨start, size⟩, { b with memory := b.memory.write ⟨start, size⟩ fun _ => 0 }, ?_, rfl,
      hleft.with_memory _⟩
    simp [Arena.request, hzero, hfits, hreserve]

theorem HasRoom.demand (h : a.HasRoom total room) (hcost : roundUp size maxAlign ≤ room) :
    ∃ region b, a.demand size = .ok (region, b) ∧ region.length = size ∧
      b.HasRoom total (room - roundUp size maxAlign) := by
  obtain ⟨region, b, hrequest, hlength, hleft⟩ := h.request hcost
  exact ⟨region, b, by rw [Arena.demand, hrequest], hlength, hleft⟩

theorem HasRoom.store (h : a.HasRoom total room) (align : Alignment) {bytes : List UInt8}
    (hcost : roundUp bytes.length maxAlign ≤ room) :
    ∃ region b, a.store bytes align.bytes = .ok (region, b) ∧ region.length = bytes.length ∧
      b.HasRoom total (room - roundUp bytes.length maxAlign) := by
  obtain ⟨start, b, hreserve, hleft⟩ := h.reserve align.dvd_maxAlign hcost
  refine ⟨⟨start, bytes.length⟩, _, by rw [Arena.store, hreserve], rfl, hleft.with_memory _⟩

theorem HasRoom.storeWords (h : a.HasRoom total room) (width : Alignment) {words : List Nat}
    (hcost : roundUp (width.bytes * words.length) maxAlign ≤ room) :
    ∃ region b, a.storeWords width.bytes words = .ok (region, b) ∧
      region.length = width.bytes * words.length ∧
      b.HasRoom total (room - roundUp (width.bytes * words.length) maxAlign) := by
  rw [← length_flatMap_wordBytes] at hcost ⊢
  exact h.store width hcost

end HasRoom

end Arena

namespace Session

open Operation

variable {s : Session} {total room n : Nat} {op : Operation} {ops : List Operation}

/-- Keeping bytes that were handed out is a success, and leaves the room that they left. -/
theorem keep_of_room {stored : Except Fault (Region × Arena)}
    (h : ∃ region a, stored = .ok (region, a) ∧ region.length = op.size ∧
      a.HasRoom total (room - op.cost)) (align : Alignment) (content : List UInt8) :
    op.Succeeds (s.keep stored align content).1 ∧
      (s.keep stored align content).2.arena.HasRoom total (room - op.cost) := by
  obtain ⟨region, a, rfl, hlength, hleft⟩ := h
  exact ⟨fun _ => ⟨_, rfl, hlength⟩, hleft⟩

/-- An operation that asks for no bytes takes no room. -/
theorem writes_of_room (h : s.arena.HasRoom total room) (hop : ¬ op.Allocates) (hsize : op.size = 0)
    (outcome : Outcome) (memory : Memory) : op.Succeeds outcome ∧
      Arena.HasRoom { s.arena with memory := memory } total (room - op.cost) := by
  have hcost : op.cost = 0 := by rw [cost, hsize, roundUp_zero]
  rw [hcost, Nat.sub_zero]
  exact ⟨fun hallocates => absurd hallocates hop, h.with_memory memory⟩

/-- An operation that the room suffices for succeeds, and leaves all but its cost. -/
theorem perform_of_room (h : s.arena.HasRoom total room) (hop : op ≠ .release)
    (hcost : op.cost ≤ room) : op.Succeeds (s.perform op).1 ∧
      (s.perform op).2.arena.HasRoom total (room - op.cost) := by
  cases op with
  | request size =>
    obtain ⟨region, a, hrequest, hlength, hleft⟩ := h.request hcost
    have hperform : s.perform (.request size) =
        s.hold a ⟨region, .strictest, List.replicate size 0⟩ := by
      rw [perform, show s.arena.request size = _ from hrequest]
    rw [hperform]
    exact ⟨fun _ => ⟨_, rfl, hlength⟩, hleft⟩
  | demand size => exact keep_of_room (h.demand hcost) _ _
  | storeBytes bytes => exact keep_of_room (h.store .one hcost) _ _
  | storeWords width words => exact keep_of_room (h.storeWords width hcost) _ _
  | storeView v => exact keep_of_room (h.store .one hcost) _ _
  | fill index byte =>
    obtain ⟨memory, hmemory⟩ := s.arena_fill index byte
    rw [hmemory]
    exact writes_of_room h id rfl _ memory
  | modifyWord index width f =>
    obtain ⟨memory, hmemory⟩ := s.arena_modifyWord index width f
    rw [hmemory]
    exact writes_of_room h id rfl _ memory
  | release => exact absurd rfl hop

/-- Operations that the room suffices for all succeed. -/
theorem run_of_room (h : s.arena.HasRoom total room) (hops : Affordable ops room) :
    List.Forall₂ Succeeds ops (run ops s).1 ∧
      (run ops s).2.arena.HasRoom total (room - totalCost ops) := by
  induction ops generalizing s room with
  | nil => exact ⟨.nil, h⟩
  | cons op ops ih =>
    have htotal : op.cost + totalCost ops ≤ room := hops.totalCost_le
    have hfirst : op ≠ .release := by
      rintro rfl
      exact hops.no_release List.mem_cons_self
    have hrest : .release ∉ ops := fun hmem => hops.no_release (List.mem_cons_of_mem _ hmem)
    obtain ⟨hsucceeds, hleft⟩ := perform_of_room h hfirst (by omega)
    obtain ⟨houtcomes, hlast⟩ := ih hleft ⟨hrest, by omega⟩
    rw [Nat.sub_sub] at hlast
    exact ⟨.cons hsucceeds houtcomes, hlast⟩

theorem run_append (s : Session) (ops later : List Operation) : run (ops ++ later) s =
    ((run ops s).1 ++ (run later (run ops s).2).1, (run later (run ops s).2).2) := by
  induction ops generalizing s with
  | nil => rfl
  | cons op ops ih => simp [run, ih]

/-- Rounds of operations, each of which the whole block suffices for, leave the whole block. -/
theorem run_rounds (h : s.arena.HasRoom total total) {rounds : List (List Operation)}
    (hrounds : ∀ round ∈ rounds, Affordable round total) :
    (run (rounds.flatMap fun round => round ++ [.release]) s).2.arena.HasRoom total total := by
  induction rounds generalizing s with
  | nil => exact h
  | cons round rounds ih =>
    obtain ⟨hround, hrest⟩ := List.forall_mem_cons.mp hrounds
    obtain ⟨-, hleft⟩ := run_of_room h hround
    rw [List.flatMap_cons, List.append_assoc, run_append]
    exact ih hleft.release hrest

/-- An arena that was made for some bytes serves all allocations that cost no more from its one
block, from the start and again after each release. -/
theorem preallocated_needs_no_block (hn : 0 < n) {a : Arena} (ha : Arena.withCapacity n = .ok a)
    {rounds : List (List Operation)} (hrounds : ∀ round ∈ rounds, Affordable round n)
    (hops : Affordable ops n) :
    ∃ earlier s outcomes t,
      run (rounds.flatMap fun round => round ++ [.release]) (start a) = (earlier, s) ∧
      run ops s = (outcomes, t) ∧ List.Forall₂ Succeeds ops outcomes ∧
      ∀ taken, taken <+: ops → (run taken s).2.arena.blockCount = 1 ∧
        (run taken s).2.arena.allocatedBytes = a.allocatedBytes := by
  obtain ⟨total, hle, hroom⟩ := Arena.hasRoom_of_withCapacity hn ha
  have hearlier := run_rounds (s := start a) hroom fun round hround =>
    (hrounds round hround).mono hle
  obtain ⟨hsucceeds, -⟩ := run_of_room hearlier (hops.mono hle)
  refine ⟨_, _, _, _, rfl, rfl, hsucceeds, ?_⟩
  intro taken htaken
  obtain ⟨-, hleft⟩ := run_of_room hearlier ((hops.of_prefix htaken).mono hle)
  rw [hroom.allocatedBytes_eq]
  exact ⟨hleft.blockCount_eq, hleft.allocatedBytes_eq⟩

/-- A block of 448 bytes is filled to the last byte, and once more after a release. -/
theorem preallocated_needs_no_block_when_full :
    ∃ a earlier s outcomes t, Arena.withCapacity 448 = .ok a ∧
      run [.request 448, .release] (start a) = (earlier, s) ∧
      run [.demand 400, .storeBytes [0x31], .storeWords ⟨8, by decide⟩ [7], .storeView ⟨[0x32]⟩] s =
        (outcomes, t) ∧
      (∃ p ∈ outcomes[2]?, ∃ q, p = .allocated q ∧ q.region.length = 8) ∧
      t.arena.blockCount = 1 ∧ t.arena.allocatedBytes = 448 := by
  have ha : Arena.withCapacity 448 = .ok { Arena.empty with blocks := [.fresh 0 448] } := rfl
  have hrounds : ∀ round ∈ [[Operation.request 448]], Affordable round 448 := by
    simp only [List.forall_mem_singleton]
    exact ⟨by simp, by decide⟩
  have hops : Affordable [.demand 400, .storeBytes [0x31], .storeWords ⟨8, by decide⟩ [7],
      .storeView ⟨[0x32]⟩] 448 := ⟨by simp, by decide⟩
  obtain ⟨earlier, s, outcomes, t, hearlier, hrun, hsucceeds, hblocks⟩ :=
    preallocated_needs_no_block (by decide) ha hrounds hops
  obtain ⟨hcount, hbytes⟩ := hblocks _ (List.prefix_refl _)
  rw [hrun] at hcount hbytes
  refine ⟨_, earlier, s, outcomes, t, ha, hearlier, hrun, ?_, hcount, hbytes⟩
  cases hsucceeds with
  | cons _ hrest =>
    cases hrest with
    | cons _ hrest =>
      cases hrest with
      | cons hword _ => exact ⟨_, rfl, hword trivial⟩

end Session
end ArithLexer
