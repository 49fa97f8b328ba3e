import ArithLexer.Proofs.Releases
import Mathlib.Algebra.BigOperators.Group.List.Basic
import Mathlib.Algebra.GroupWithZero.Nat
import Mathlib.Algebra.Order.BigOperators.Group.List
import Mathlib.Algebra.Order.Group.Nat
import Mathlib.Data.List.Intervals
import Mathlib.Data.List.Nodup
import Mathlib.Data.List.Perm.Subperm

/-!
# Accounts of an arena

An arena answers for the sizes of its blocks, and its allocations answer for the
bytes that are reserved for them. A step other than a release leaves the sizes
as they are or puts one in front that the limit admits (`Grows`); a release
keeps the first of them. So the limit holds at all times (`run_within`).

Regions that lie apart inside another are no longer than that one together
(`Region.sum_length_le`). So no block has more bytes reserved than it holds, and
since every reservation lies in exactly one block (`sum_covering`), all of them
together are no more than the arena holds.
-/

namespace ArithLexer

/-! ### Regions inside a region -/

namespace Region

/-- The addresses of a region. -/
def addresses (r : Region) : List Nat := List.Ico r.start r.stop

variable {r s : Region}

@[simp] theorem length_addresses (r : Region) : r.addresses.length = r.length := by
  simp [addresses, stop]

theorem mem_addresses {n : Nat} : n ∈ r.addresses ↔ r.start ≤ n ∧ n < r.stop := List.Ico.mem

theorem Apart.disjoint (h : r.Apart s) : r.addresses.Disjoint s.addresses := by
  intro n hr hs
  rw [mem_addresses] at hr hs
  rcases h with h | h <;> omega

theorem addresses_subset (h : r.covers s = true) : s.addresses ⊆ r.addresses := by
  have hcovers := of_decide_eq_true h
  intro n hn
  rw [mem_addresses] at hn ⊢
  omega

/-- Regions that lie apart inside a region have no more bytes than it. -/
theorem sum_length_le {rs : List Region} (hapart : rs.Pairwise Apart)
    (hin : ∀ s ∈ rs, r.covers s = true) : (rs.map length).sum ≤ r.length := by
  have hnodup : (rs.flatMap addresses).Nodup := by
    rw [List.nodup_flatMap]
    constructor
    · intro s _
      exact List.Ico.nodup _ _
    · apply hapart.imp
      intro s t h
      exact h.disjoint
  have hsubset : rs.flatMap addresses ⊆ r.addresses := by
    intro n hn
    obtain ⟨s, hs, hn⟩ := List.mem_flatMap.mp hn
    exact addresses_subset (hin s hs) hn
  calc (rs.map length).sum = (rs.flatMap addresses).length := by
        rw [List.length_flatMap]
        simp
    _ ≤ r.addresses.length := (List.subperm_of_subset hnodup hsubset).length_le
    _ = r.length := length_addresses r

end Region

/-! ### Reservations and the blocks they lie in -/

/-- All addresses of a block. -/
def Block.region (b : Block) : Region := ⟨b.base, b.size⟩

/-- The bytes of a block that are reserved for some allocations. -/
def Block.reserved (b : Block) (live : List Allocation) : Nat :=
  ((live.map Allocation.reservation).filter b.region.covers |>.map Region.length).sum

/-- The bytes that are reserved for what was handed out, rounded as it was. -/
def Session.reserved (s : Session) : Nat :=
  ((s.live.map Allocation.reservation).map Region.length).sum

section Blocks

variable {blocks : List Block} {r : Region}

/-- What one more allocation takes of a block. -/
theorem Block.reserved_cons (b : Block) (p : Allocation) (live : List Allocation) :
    b.reserved (p :: live) =
      (if b.region.covers p.reservation = true then p.reservation.length else 0) +
        b.reserved live := by
  simp only [Block.reserved, List.map_cons, List.filter_cons]
  split_ifs <;> simp

/-- Of blocks that lie behind one another only one covers a region that has bytes. -/
theorem sum_covering (hbehind : blocks.Pairwise fun newer older => older.stop ≤ newer.base)
    (hr : r.length = 0 ∨ ∃ b ∈ blocks, b.region.covers r = true) :
    (blocks.map fun b => if b.region.covers r = true then r.length else 0).sum = r.length := by
  by_cases hzero : r.length = 0
  · simp [hzero]
  replace hr := hr.resolve_left hzero
  induction blocks with
  | nil => simp at hr
  | cons newest older ih =>
    obtain ⟨hnewest, holder⟩ := List.pairwise_cons.mp hbehind
    rw [List.map_cons, List.sum_cons]
    by_cases hcovers : newest.region.covers r = true
    · have hrest : ∀ b ∈ older, ¬ b.region.covers r = true := by
        intro b hb hb'
        have hle := hnewest b hb
        have h := of_decide_eq_true hcovers
        have h' := of_decide_eq_true hb'
        simp only [Block.region, Block.stop, Region.stop] at h h' hle
        omega
      have hsum : (older.map fun b =>
          if b.region.covers r = true then r.length else 0).sum = 0 := by
        apply List.sum_eq_zero
        intro n hn
        obtain ⟨b, hb, rfl⟩ := List.mem_map.mp hn
        exact if_neg (hrest b hb)
      rw [if_pos hcovers, hsum]
      rfl
    · have hsome : ∃ b ∈ older, b.region.covers r = true := by
        obtain ⟨b, hb, hb'⟩ := hr
        rcases List.mem_cons.mp hb with rfl | hb
        · exact absurd hb' hcovers
        · exact ⟨b, hb, hb'⟩
      rw [if_neg hcovers, Nat.zero_add]
      exact ih holder hsome

/-- What is reserved in such blocks, block by block and in all. -/
theorem sum_reserved (hbehind : blocks.Pairwise fun newer older => older.stop ≤ newer.base)
    {live : List Allocation} (hlive : ∀ p ∈ live, p.reservation.length = 0 ∨
      ∃ b ∈ blocks, b.region.covers p.reservation = true) :
    ((live.map Allocation.reservation).map Region.length).sum =
      (blocks.map fun b => b.reserved live).sum := by
  induction live with
  | nil => simp [Block.reserved]
  | cons p live ih =>
    obtain ⟨hp, hlive⟩ := List.forall_mem_cons.mp hlive
    simp only [Block.reserved_cons, List.sum_map_add, List.map_cons, List.sum_cons]
    rw [sum_covering hbehind hp, ih hlive]

end Blocks

namespace Session

variable {s : Session}

theorem Sound.covered (hs : Sound s) {p : Allocation} (hp : p ∈ s.live) :
    p.reservation.length = 0 ∨
      ∃ block ∈ s.arena.blocks, block.region.covers p.reservation = true := by
  rcases hs.enclosed p hp with hempty | ⟨block, hblock, hstart, hstop⟩
  · left
    rw [hempty]
    rfl
  · right
    refine ⟨block, hblock, decide_eq_true ?_⟩
    constructor
    · exact Nat.le_trans (Nat.le_add_right _ _) hstart
    · exact hstop

/-- No block has more bytes reserved than it holds. -/
theorem Sound.reserved_le_size (hs : Sound s) (block : Block) :
    block.reserved s.live ≤ block.size := by
  apply Region.sum_length_le (r := block.region)
  · exact hs.apart.filter _
  · intro r hr
    exact (List.mem_filter.mp hr).2

/-- Every reservation is counted in one block. -/
theorem Sound.reserved_eq_sum (hs : Sound s) :
    s.reserved = (s.arena.blocks.map fun block => block.reserved s.live).sum :=
  sum_reserved hs.stacked.behind fun _ hp => hs.covered hp

end Session

/-! ### The blocks of an arena -/

namespace Arena

variable {a b : Arena} {size align : Nat} {start : Option Nat}

/-- The sizes of the blocks, the newest first. -/
def sizes (a : Arena) : List Nat := a.blocks.map Block.size

theorem allocatedBytes_eq_sum (a : Arena) : a.allocatedBytes = a.sizes.sum := by
  unfold allocatedBytes sizes
  induction a.blocks with
  | nil => rfl
  | cons newest older ih => rw [List.foldr_cons, List.map_cons, List.sum_cons, ih]

theorem blockCount_eq_length (a : Arena) : a.blockCount = a.sizes.length := by
  simp [blockCount, sizes]

/-- What an operation other than a release can do to the sizes of the blocks: it takes one more
block, if at all, and that one is admitted. -/
inductive Grows (a b : Arena) : Prop
  | same (h : b.sizes = a.sizes)
  | more {found : Nat} (hadmits : a.admits found = true) (h : b.sizes = found :: a.sizes)

theorem Reserved.grows (h : Reserved a size align start b) : a.Grows b := by
  cases h with
  | nothing => exact .same rfl
  | refused => exact .same rfl
  | carved hblocks hcarve =>
    apply Grows.same
    simp [sizes, hblocks, hcarve.size_eq]
  | acquired hfull hfound hcarve =>
    obtain ⟨-, -, -, hadmits⟩ := findBlock_spec hfound
    apply Grows.more hadmits
    simp [sizes, hcarve.size_eq, Block.fresh]

theorem Advances.grows (h : a.Advances b) : a.Grows b := by
  cases h with
  | written => exact .same rfl
  | reserved align memory h =>
    cases h.grows with
    | same h => exact .same h
    | more hadmits h => exact .more hadmits h

theorem Grows.allocatedBytes_le (h : a.Grows b) : a.allocatedBytes ≤ b.allocatedBytes := by
  rw [allocatedBytes_eq_sum, allocatedBytes_eq_sum]
  cases h with
  | same h => rw [h]
  | more hadmits h =>
    rw [h, List.sum_cons]
    exact Nat.le_add_left _ _

theorem Grows.blockCount_le (h : a.Grows b) : a.blockCount ≤ b.blockCount := by
  rw [blockCount_eq_length, blockCount_eq_length]
  cases h with
  | same h => rw [h]
  | more hadmits h =>
    rw [h, List.length_cons]
    exact Nat.le_succ _

theorem sizes_release (a : Arena) : a.release.sizes = a.sizes.take 1 := by
  unfold release sizes
  cases a.blocks <;> rfl

theorem allocatedBytes_release_le (a : Arena) : a.release.allocatedBytes ≤ a.allocatedBytes := by
  rw [allocatedBytes_eq_sum, allocatedBytes_eq_sum, sizes_release]
  cases a.sizes <;> simp

theorem blockCount_release (a : Arena) : a.release.blockCount = min 1 a.blockCount := by
  rw [blockCount_eq_length, blockCount_eq_length, sizes_release, List.length_take]

/-- An arena whose blocks are within its limit. -/
def Within (a : Arena) : Prop := ∀ limit ∈ a.limit, a.allocatedBytes ≤ limit

theorem Created.within (h : Created a) : a.Within := by
  intro limit hlimit
  cases h with
  | empty => exact Nat.zero_le _
  | withLimit => exact Nat.zero_le _
  | withCapacity h =>
    -- an arena with a capacity has no limit
    unfold Arena.withCapacity at h
    dsimp only at h
    split_ifs at h
    · cases h
      cases hlimit
    · cases h
      cases hlimit

theorem Grows.within (h : a.Grows b) (hlimit : b.limit = a.limit) (ha : a.Within) :
    b.Within := by
  intro limit hb
  rw [hlimit] at hb
  cases h with
  | same h =>
    rw [allocatedBytes_eq_sum, h, ← allocatedBytes_eq_sum]
    exact ha limit hb
  | more hadmits h =>
    have hle := (admits_iff.mp hadmits).2 limit hb
    rw [allocatedBytes_eq_sum] at hle ⊢
    rw [h, List.sum_cons, Nat.add_comm]
    exact hle

end Arena

/-! ### Runs -/

namespace Session

open Arena

variable {s : Session} {op : Operation} {ops : List Operation}

theorem perform_within (hs : s.arena.Within) (op : Operation) :
    (s.perform op).2.arena.Within := by
  by_cases hop : op = .release
  · subst hop
    intro limit hlimit
    exact Nat.le_trans (allocatedBytes_release_le _) (hs limit hlimit)
  · have hadvances := perform_advances s hop
    exact hadvances.grows.within hadvances.evolves.limit_eq hs

/-- The limit holds at all times. -/
theorem run_within (hs : s.arena.Within) (ops : List Operation) :
    (run ops s).2.arena.Within := by
  induction ops generalizing s with
  | nil => exact hs
  | cons op ops ih => exact ih (perform_within hs op)

/-- Until it is released, whatever was handed out keeps its reservation. -/
theorem perform_reservations (s : Session) (hop : op ≠ .release) :
    s.live.map Allocation.reservation <:+ (s.perform op).2.live.map Allocation.reservation := by
  have hkeep : ∀ stored align content, s.live.map Allocation.reservation <:+
      (s.keep stored align content).2.live.map Allocation.reservation := by
    intro stored align content
    unfold keep
    split
    · exact List.suffix_cons _ _
    · exact List.suffix_rfl
  cases op with
  | request size =>
    unfold perform
    dsimp only
    split
    · exact List.suffix_cons _ _
    · exact List.suffix_rfl
  | demand size => exact hkeep _ _ _
  | storeBytes bytes => exact hkeep _ _ _
  | storeWords width words => exact hkeep _ _ _
  | storeView v => exact hkeep _ _ _
  | fill index byte =>
    unfold perform
    dsimp only
    split
    · exact List.suffix_rfl
    · next hp => exact ⟨[], (map_reservation_set hp _).symm⟩
  | modifyWord index width f =>
    unfold perform
    dsimp only
    split
    · exact List.suffix_rfl
    · next hp =>
      split
      · exact ⟨[], (map_reservation_set hp _).symm⟩
      · exact List.suffix_rfl
  | release => exact absurd rfl hop

theorem perform_reserved_le (s : Session) (hop : op ≠ .release) :
    s.reserved ≤ (s.perform op).2.reserved := by
  obtain ⟨newer, h⟩ := perform_reservations s hop
  unfold Session.reserved
  rw [← h, List.map_append, List.sum_append]
  exact Nat.le_add_left _ _

/-- As long as nothing is released, no account goes down. -/
theorem run_accounts_le (s : Session) (hops : .release ∉ ops) :
    s.arena.allocatedBytes ≤ (run ops s).2.arena.allocatedBytes ∧
      s.arena.blockCount ≤ (run ops s).2.arena.blockCount ∧
      s.reserved ≤ (run ops s).2.reserved := by
  induction ops generalizing s with
  | nil => exact ⟨Nat.le_refl _, Nat.le_refl _, Nat.le_refl _⟩
  | cons op ops ih =>
    rw [List.mem_cons, not_or] at hops
    have hgrows := (perform_advances s (Ne.symm hops.1)).grows
    obtain ⟨hbytes, hcount, hreserved⟩ := ih (s.perform op).2 hops.2
    refine ⟨?_, ?_, ?_⟩
    · exact Nat.le_trans hgrows.allocatedBytes_le hbytes
    · exact Nat.le_trans hgrows.blockCount_le hcount
    · exact Nat.le_trans (perform_reserved_le s (Ne.symm hops.1)) hreserved

/-- Whatever is asked of an arena, its blocks stay within its limit, and no more bytes of a
block are reserved than it has. Only a release takes anything off these accounts; it leaves one
block at most, and adds to none of them. -/
theorem accounts_balance {a : Arena} (ha : a.Created) (ops : List Operation) :
    ∃ outcomes s, run ops (start a) = (outcomes, s) ∧
      (∀ limit ∈ a.limit, s.arena.allocatedBytes ≤ limit) ∧
      s.arena.allocatedBytes = (s.arena.blocks.map Block.size).sum ∧
      s.arena.blockCount = s.arena.blocks.length ∧
      (∀ block ∈ s.arena.blocks, block.reserved s.live ≤ block.size) ∧
      s.reserved = (s.arena.blocks.map fun block => block.reserved s.live).sum ∧
      s.reserved ≤ s.arena.allocatedBytes ∧
      (∀ more, .release ∉ more → ∃ later t, run more s = (later, t) ∧
        s.arena.allocatedBytes ≤ t.arena.allocatedBytes ∧
        s.arena.blockCount ≤ t.arena.blockCount ∧ s.reserved ≤ t.reserved) ∧
      ∃ t, s.perform .release = (.done, t) ∧ t.arena.blockCount ≤ 1 ∧
        t.arena.blockCount ≤ s.arena.blockCount ∧
        t.arena.allocatedBytes ≤ s.arena.allocatedBytes ∧ t.reserved = 0 := by
  have hs := run_sound (sound_start ha.stacked) ops
  have hwithin := run_within (s := start a) ha.within ops
  have hsum := allocatedBytes_eq_sum (run ops (start a)).2.arena
  have hblock : ∀ block ∈ (run ops (start a)).2.arena.blocks,
      block.reserved (run ops (start a)).2.live ≤ block.size :=
    fun block _ => hs.reserved_le_size block
  refine ⟨_, _, rfl, ?_, hsum, rfl, hblock, hs.reserved_eq_sum, ?_, ?_, _, rfl, ?_⟩
  · intro limit hlimit
    apply hwithin
    rwa [run_limit_eq]
  · rw [hs.reserved_eq_sum, hsum]
    exact List.sum_le_sum hblock
  · intro more hmore
    exact ⟨_, _, rfl, run_accounts_le _ hmore⟩
  · have hcount := blockCount_release (run ops (start a)).2.arena
    refine ⟨?_, ?_, allocatedBytes_release_le _, rfl⟩
    · exact Nat.le_trans (Nat.le_of_eq hcount) (Nat.min_le_left _ _)
    · exact Nat.le_trans (Nat.le_of_eq hcount) (Nat.min_le_right _ _)

/-- Under a limit of 2000 bytes, with a request that is refused and one behind a release. -/
theorem accounts_balance_under_limit :
    ∃ outcomes s, run [.demand 3, .storeView ⟨[0x31]⟩, .request 5000, .request 900, .release,
        .request 16] (start (.withLimit 2000)) = (outcomes, s) ∧
      s.arena.allocatedBytes ≤ 2000 ∧ s.reserved ≤ s.arena.allocatedBytes ∧
      ∃ later t, run [.request 1000] s = (later, t) ∧
        s.arena.allocatedBytes ≤ t.arena.allocatedBytes := by
  obtain ⟨outcomes, s, hrun, hlimit, -, -, -, -, hreserved, hmore, -⟩ :=
    accounts_balance (.withLimit 2000) [.demand 3, .storeView ⟨[0x31]⟩, .request 5000,
      .request 900, .release, .request 16]
  obtain ⟨later, t, hlater, hle, -⟩ := hmore [.request 1000] (by simp)
  exact ⟨outcomes, s, hrun, hlimit 2000 rfl, hreserved, later, t, hlater, hle⟩

end Session
end ArithLexer
