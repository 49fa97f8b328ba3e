import ArithLexer.Arena.Request

/-!
# Reservations

What carving a stretch out of a block, looking for a new block and reserving
bytes in an arena can lead to. `Reserved` lists all outcomes of a reservation:
a stretch of the newest block, a stretch of a new one, or none, and then the
arena is what it was. A block that is found always has room
(`Block.carve_fresh`), so no block is ever taken in vain. `Requested` lists the
outcomes of a request on top of that.

The blocks of an arena lie behind one another (`Stacked`), and a reservation
takes bytes that none of them has handed out (`Reserved.apart`).
-/

namespace ArithLexer

/-- Two regions one of which ends before the other starts. -/
def Region.Apart (r s : Region) : Prop := r.stop ≤ s.start ∨ s.stop ≤ r.start

theorem Region.Apart.symm {r s : Region} (h : r.Apart s) : s.Apart r := Or.symm h

section RoundUp

variable {n m align : Nat}

theorem dvd_roundUp (n align : Nat) : align ∣ roundUp n align := Nat.dvd_mul_left align _

theorem roundUp_le (h : align ∣ m) (hn : n ≤ m) (halign : 0 < align) : roundUp n align ≤ m := by
  obtain ⟨k, rfl⟩ := h
  have hlt : (n + (align - 1)) / align < k + 1 := by
    rw [Nat.div_lt_iff_lt_mul halign, Nat.add_mul, Nat.one_mul, Nat.mul_comm k]
    omega
  rw [roundUp, Nat.mul_comm]
  exact Nat.mul_le_mul_left align (Nat.lt_succ_iff.mp hlt)

theorem roundUp_of_dvd (h : align ∣ n) (halign : 0 < align) : roundUp n align = n :=
  Nat.le_antisymm (roundUp_le h (Nat.le_refl n) halign) (le_roundUp n halign)

@[simp] theorem roundUp_zero : roundUp 0 align = 0 := by
  cases align with
  | zero => rfl
  | succ align => exact roundUp_of_dvd (Nat.dvd_zero _) (Nat.succ_pos align)

/-- A stricter alignment rounds no less. -/
theorem roundUp_le_roundUp {strict : Nat} (h : align ∣ strict) (hstrict : 0 < strict) (n : Nat) :
    roundUp n align ≤ roundUp n strict :=
  roundUp_le (Nat.dvd_trans h (dvd_roundUp n strict)) (le_roundUp n hstrict)
    (Nat.pos_of_dvd_of_pos h hstrict)

theorem maxAlign_dvd_powerAbove (h : 8 < n) : maxAlign ∣ powerAbove n := by
  have hlog : 3 ≤ (n - 1).log2 := (Nat.le_log2 (by omega)).mpr (by omega)
  rw [powerAbove, if_neg (by omega)]
  exact Nat.pow_dvd_pow 2 (Nat.succ_le_succ hlog)

end RoundUp

namespace Block

variable {b rest : Block} {size align start wanted : Nat}

theorem max_le_sizeFor (wanted size align : Nat) :
    max wanted (roundUp size (max maxAlign align)) ≤ sizeFor wanted size align := by
  unfold sizeFor
  generalize max wanted (roundUp size (max maxAlign align)) = n
  dsimp only
  split
  · have h := le_powerAbove (n + footer)
    omega
  · have hpage : 0 < page := by decide
    have h := le_roundUp (n + footer) hpage
    omega

theorem maxAlign_dvd_sizeFor (wanted size align : Nat) : maxAlign ∣ sizeFor wanted size align := by
  unfold sizeFor
  generalize max wanted (roundUp size (max maxAlign align)) = n
  dsimp only
  have hfooter : maxAlign ∣ footer := by decide
  split
  · exact Nat.dvd_sub (maxAlign_dvd_powerAbove (by unfold footer; omega)) hfooter
  · have hpage : maxAlign ∣ page := by decide
    exact Nat.dvd_sub (Nat.dvd_trans hpage (dvd_roundUp _ _)) hfooter

/-- What carving does to a block: the stretch is cut off the end of the free bytes, and what
it needs beyond the rounded size is lost to its alignment. -/
structure Carved (b : Block) (size align start : Nat) (rest : Block) : Prop where
  base_eq : rest.base = b.base
  size_eq : rest.size = b.size
  start_eq : start = b.base + rest.free
  free_eq : rest.free + roundUp size align + b.free % align = b.free
  aligned : align ∣ b.base → align ∣ start

theorem carved_of_carve (h : b.carve size align = some (start, rest)) :
    Carved b size align start rest := by
  unfold carve at h
  dsimp only at h
  split at h
  · next hle =>
    cases h
    have hmod := Nat.mod_le b.free align
    refine ⟨rfl, rfl, rfl, ?_, ?_⟩
    · dsimp only
      omega
    · intro hbase
      have hfree := Nat.dvd_sub (Nat.dvd_sub_mod b.free) (dvd_roundUp size align)
      exact Nat.dvd_add hbase hfree
  · cases h

theorem carve_eq_none_iff :
    b.carve size align = none ↔ b.free - b.free % align < roundUp size align := by
  simp [carve]

/-- A block taken for a reservation has room for it. -/
theorem carve_fresh (base wanted size : Nat) (halign : align ∣ maxAlign) :
    ∃ start rest, (fresh base (sizeFor wanted size align)).carve size align =
      some (start, rest) := by
  have hpos : 0 < maxAlign := by decide
  have hmax : max maxAlign align = maxAlign := Nat.max_eq_left (Nat.le_of_dvd hpos halign)
  have hroom := max_le_sizeFor wanted size align
  rw [hmax] at hroom
  have hround := roundUp_le_roundUp halign hpos size
  have hmod := Nat.mod_eq_zero_of_dvd
    (Nat.dvd_trans halign (maxAlign_dvd_sizeFor wanted size align))
  cases h : (fresh base (sizeFor wanted size align)).carve size align with
  | none =>
    rw [carve_eq_none_iff] at h
    simp only [fresh, hmod] at h
    omega
  | some found => exact ⟨found.1, found.2, rfl⟩

end Block

namespace Arena

/-! ### What a reservation leads to -/

section Outcomes

variable {a b : Arena} {size align wanted found : Nat} {start : Option Nat}

/-- Only a request with bytes can find the newest block full. -/
theorem pos_of_carve_eq_none (h : a.carve size align = none) : 0 < size := by
  apply Nat.pos_of_ne_zero
  rintro rfl
  unfold carve at h
  split at h
  · cases h
  · rw [Option.map_eq_none_iff, Block.carve_eq_none_iff, roundUp_zero] at h
    cases h

/-- A block that is found is admitted, and made for a wanted size that was allowed. -/
theorem findBlock_spec (h : a.findBlock size align wanted = some found) :
    ∃ w, a.mayWant size w = true ∧ found = Block.sizeFor w size align ∧
      a.admits found = true := by
  fun_induction findBlock a size align wanted with
  | case1 wanted hpos hwant n hadmits =>
    exact ⟨wanted, hwant, (Option.some.inj h).symm, Option.some.inj h ▸ hadmits⟩
  | case2 wanted hpos hwant n hadmits ih => exact ih h
  | case3 => cases h
  | case4 => cases h

/-- What a reservation leads to. -/
inductive Reserved (a : Arena) (size align : Nat) : Option Nat → Arena → Prop
  /-- No bytes, of no block. -/
  | nothing (hblocks : a.blocks = []) (hsize : size = 0) : Reserved a size align (some 0) a
  | carved {newest rest : Block} {older : List Block} {start : Nat}
      (hblocks : a.blocks = newest :: older)
      (hcarve : newest.Carved size align start rest) :
      Reserved a size align (some start) { a with blocks := rest :: older }
  | acquired {found start : Nat} {rest : Block}
      (hfull : a.carve size align = none)
      (hfound : a.findBlock size align (a.firstWanted size) = some found)
      (hcarve : (Block.fresh a.frontier found).Carved size align start rest) :
      Reserved a size align (some start) { a with blocks := rest :: a.blocks }
  | refused (hfull : a.carve size align = none)
      (hnone : a.findBlock size align (a.firstWanted size) = none) :
      Reserved a size align none a

theorem Reserved.of_carve {found : Nat × Arena} (h : a.carve size align = some found) :
    Reserved a size align (some found.1) found.2 := by
  unfold carve at h
  split at h
  · next hblocks =>
    split at h
    · next hsize =>
      cases h
      exact .nothing hblocks hsize
    · cases h
  · next newest older hblocks =>
    cases hcarve : newest.carve size align with
    | none =>
      rw [hcarve] at h
      cases h
    | some carved =>
      obtain ⟨start, rest⟩ := carved
      rw [hcarve] at h
      cases h
      exact .carved hblocks (Block.carved_of_carve hcarve)

theorem reserve_spec (a : Arena) (size : Nat) (halign : align ∣ maxAlign) :
    Reserved a size align (a.reserve size align).1 (a.reserve size align).2 := by
  unfold reserve
  cases hcarve : a.carve size align with
  | some found => exact .of_carve hcarve
  | none =>
    cases hfound : a.findBlock size align (a.firstWanted size) with
    | none => exact .refused hcarve hfound
    | some found =>
      obtain ⟨w, _, rfl, _⟩ := findBlock_spec hfound
      obtain ⟨start, rest, hfresh⟩ := Block.carve_fresh a.frontier w size halign
      have hgrown : carve { a with
            blocks := Block.fresh a.frontier (Block.sizeFor w size align) :: a.blocks }
          size align = some (start, { a with blocks := rest :: a.blocks }) := by
        simp only [carve, hfresh, Option.map_some]
      simp only [hgrown]
      exact .acquired hcarve hfound (Block.carved_of_carve hfresh)

namespace Reserved

theorem memory_eq (h : Reserved a size align start b) : b.memory = a.memory := by
  cases h <;> rfl

theorem limit_eq (h : Reserved a size align start b) : b.limit = a.limit := by
  cases h <;> rfl

/-- A reservation that fails leaves the arena as it was. -/
theorem eq_of_none (h : Reserved a size align none b) : b = a := by
  cases h
  rfl

end Reserved

theorem reserve_isSome_iff (halign : align ∣ maxAlign) :
    (a.reserve size align).1.isSome = true ↔ (a.carve size align).isSome = true ∨
      (a.findBlock size align (a.firstWanted size)).isSome = true := by
  have hreserved := reserve_spec a size halign
  constructor
  · intro hsome
    cases hfull : a.carve size align with
    | some carved => exact .inl rfl
    | none =>
      cases hfound : a.findBlock size align (a.firstWanted size) with
      | some found => exact .inr rfl
      | none =>
        rw [reserve, hfull] at hsome
        dsimp only at hsome
        rw [hfound] at hsome
        cases hsome
  · intro hfits
    rw [Option.isSome_iff_ne_none]
    intro hnone
    rw [hnone] at hreserved
    generalize (a.reserve size align).2 = b at hreserved
    cases hreserved with
    | refused hfull hnone => simp [hfull, hnone] at hfits

/-- What a request leads to. -/
inductive Requested (a : Arena) (size : Nat) : Except RequestError Region → Arena → Prop
  | empty (hsize : size = 0) : Requested a size (.ok .empty) a
  | overflow (hsize : largestRequest < size) : Requested a size (.error (.sizeOverflow size)) a
  | refused (hpos : 0 < size) (hsize : size ≤ largestRequest)
      (h : Reserved a (roundUp size maxAlign) maxAlign none a) :
      Requested a size (.error (.outOfMemory (roundUp size maxAlign))) a
  | granted {start : Nat} {b : Arena} (hpos : 0 < size) (hsize : size ≤ largestRequest)
      (h : Reserved a (roundUp size maxAlign) maxAlign (some start) b) :
      Requested a size (.ok ⟨start, size⟩)
        { b with memory := b.memory.write ⟨start, size⟩ fun _ => 0 }

theorem request_spec (a : Arena) (size : Nat) :
    Requested a size (a.request size).1 (a.request size).2 := by
  unfold request
  split
  · next hsize => exact .empty hsize
  next hpos =>
  split
  · next hsize => exact .overflow hsize
  next hsize =>
  have hreserve := reserve_spec a (roundUp size maxAlign) (Nat.dvd_refl maxAlign)
  dsimp only
  split
  · next b hb =>
    rw [hb] at hreserve
    obtain rfl := hreserve.eq_of_none
    exact .refused (Nat.pos_of_ne_zero hpos) (Nat.not_lt.mp hsize) hreserve
  · next start b hb =>
    rw [hb] at hreserve
    exact .granted (Nat.pos_of_ne_zero hpos) (Nat.not_lt.mp hsize) hreserve

/-- A request that fails leaves the arena as it was. -/
theorem request_error_eq {cause : RequestError} (h : a.request size = (.error cause, b)) :
    b = a := by
  have hrequest := request_spec a size
  rw [h] at hrequest
  cases hrequest <;> rfl

/-- What storing some bytes leads to. -/
inductive Stored (a : Arena) (bytes : List UInt8) (align : Nat) :
    Except Fault (Region × Arena) → Prop
  | refused (h : Reserved a bytes.length align none a) :
      Stored a bytes align (.error .memoryExhausted)
  | granted {start : Nat} {b : Arena} (h : Reserved a bytes.length align (some start) b) :
      Stored a bytes align (.ok (⟨start, bytes.length⟩,
        { b with memory := b.memory.write ⟨start, bytes.length⟩ fun k => bytes.toArray.getD k 0 }))

theorem store_spec (a : Arena) (bytes : List UInt8) (halign : align ∣ maxAlign) :
    Stored a bytes align (a.store bytes align) := by
  have hreserve := reserve_spec a bytes.length halign
  unfold store
  split
  · next b hb =>
    rw [hb] at hreserve
    rw [hreserve.eq_of_none] at hreserve
    exact .refused hreserve
  · next start b hb =>
    rw [hb] at hreserve
    exact .granted hreserve

end Outcomes

/-! ### Where reservations lie -/

/-- A way to come by an arena. -/
inductive Created : Arena → Prop
  | empty : Created empty
  | withLimit (limit : Nat) : Created (withLimit limit)
  | withCapacity {capacity : Nat} {a : Arena} (h : withCapacity capacity = .ok a) : Created a

/-- Blocks that lie behind one another on the strictest alignment. -/
structure Stacked (a : Arena) : Prop where
  aligned : ∀ block ∈ a.blocks, maxAlign ∣ block.base ∧ maxAlign ∣ block.size
  positive : ∀ block ∈ a.blocks, 0 < block.size
  free_le : ∀ block ∈ a.blocks, block.free ≤ block.size
  behind : a.blocks.Pairwise fun newer older => older.stop ≤ newer.base

/-- A region among the bytes that a block has handed out. -/
def Encloses (a : Arena) (r : Region) : Prop :=
  ∃ block ∈ a.blocks, block.base + block.free ≤ r.start ∧ r.stop ≤ block.stop

section Stacked

variable {a b : Arena} {size align start : Nat} {found : Option Nat} {r : Region}

theorem Created.stacked (h : Created a) : a.Stacked := by
  have hnone : ∀ limit, Stacked ⟨limit, [], Memory.fresh⟩ :=
    fun _ => ⟨by simp, by simp, by simp, .nil⟩
  cases h with
  | empty => exact hnone none
  | withLimit limit => exact hnone (some limit)
  | @withCapacity capacity a h =>
    unfold Arena.withCapacity at h
    split at h
    · cases h
      exact hnone none
    dsimp only at h
    split at h
    · cases h
      refine ⟨?_, ?_, ?_, List.pairwise_singleton _ _⟩
      · intro block hblock
        rw [List.mem_singleton.mp hblock]
        exact ⟨Nat.dvd_zero _, Block.maxAlign_dvd_sizeFor _ _ _⟩
      · intro block hblock
        rw [List.mem_singleton.mp hblock]
        have hleast : 0 < Block.leastSize := by decide
        exact Nat.lt_of_lt_of_le hleast (Nat.le_trans (Nat.le_max_left _ _)
          (Block.max_le_sizeFor _ _ _))
      · intro block hblock
        rw [List.mem_singleton.mp hblock]
        exact Nat.le_refl _
    · cases h

theorem Stacked.with_memory (ha : a.Stacked) (memory : Memory) :
    Stacked { a with memory := memory } :=
  ⟨ha.aligned, ha.positive, ha.free_le, ha.behind⟩

/-- Every block ends before the address at which the next one will start. -/
theorem Stacked.stop_le_frontier (ha : a.Stacked) {block : Block} (hblock : block ∈ a.blocks) :
    block.stop ≤ a.frontier := by
  have hbehind := ha.behind
  unfold frontier
  cases hblocks : a.blocks with
  | nil =>
    rw [hblocks] at hblock
    cases hblock
  | cons newest older =>
    rw [hblocks] at hblock hbehind
    change block.stop ≤ newest.stop
    rcases List.mem_cons.mp hblock with rfl | hblock
    · exact Nat.le_refl _
    · have hle := (List.pairwise_cons.mp hbehind).1 block hblock
      exact Nat.le_trans hle (Nat.le_add_right _ _)

theorem Stacked.maxAlign_dvd_frontier (ha : a.Stacked) : maxAlign ∣ a.frontier := by
  have haligned := ha.aligned
  unfold frontier
  cases hblocks : a.blocks with
  | nil => exact Nat.dvd_zero _
  | cons newest older =>
    obtain ⟨hbase, hsize⟩ := haligned newest (by simp [hblocks])
    exact Nat.dvd_add hbase hsize

theorem Stacked.release (ha : a.Stacked) : a.release.Stacked := by
  unfold Arena.release
  cases hblocks : a.blocks with
  | nil => exact ⟨by simp, by simp, by simp, .nil⟩
  | cons newest older =>
    refine ⟨?_, ?_, ?_, List.pairwise_singleton _ _⟩
    · intro block hblock
      rw [List.mem_singleton.mp hblock]
      exact ha.aligned newest (by simp [hblocks])
    · intro block hblock
      rw [List.mem_singleton.mp hblock]
      exact ha.positive newest (by simp [hblocks])
    · intro block hblock
      rw [List.mem_singleton.mp hblock]
      exact Nat.le_refl _

/-! ### What a reservation does to the blocks -/

theorem Reserved.stacked (ha : a.Stacked) (h : Reserved a size align found b) : b.Stacked := by
  cases h with
  | nothing => exact ha
  | refused => exact ha
  | @carved newest rest older start hblocks hcarve =>
    obtain ⟨haligned, hpositive, hfree, hbehind⟩ := ha
    rw [hblocks] at haligned hpositive hfree hbehind
    obtain ⟨hnewest, holder⟩ := List.forall_mem_cons.mp haligned
    obtain ⟨hnewestPos, holderPos⟩ := List.forall_mem_cons.mp hpositive
    obtain ⟨hnewestFree, holderFree⟩ := List.forall_mem_cons.mp hfree
    have hrest := hcarve.free_eq
    refine ⟨List.forall_mem_cons.mpr ⟨?_, holder⟩, List.forall_mem_cons.mpr ⟨?_, holderPos⟩,
      List.forall_mem_cons.mpr ⟨?_, holderFree⟩, ?_⟩
    · rwa [hcarve.base_eq, hcarve.size_eq]
    · rwa [hcarve.size_eq]
    · rw [hcarve.size_eq]
      omega
    · rw [List.pairwise_cons] at hbehind ⊢
      rwa [hcarve.base_eq]
  | @acquired found start rest hfull hfound hcarve =>
    obtain ⟨w, -, hsize, -⟩ := findBlock_spec hfound
    have hrest := hcarve.free_eq
    refine ⟨List.forall_mem_cons.mpr ⟨?_, ha.aligned⟩,
      List.forall_mem_cons.mpr ⟨?_, ha.positive⟩,
      List.forall_mem_cons.mpr ⟨?_, ha.free_le⟩, List.pairwise_cons.mpr ⟨?_, ha.behind⟩⟩
    · rw [hcarve.base_eq, hcarve.size_eq]
      exact ⟨ha.maxAlign_dvd_frontier, hsize ▸ Block.maxAlign_dvd_sizeFor _ _ _⟩
    · have hpos := pos_of_carve_eq_none hfull
      have halign : 0 < max maxAlign align :=
        Nat.lt_of_lt_of_le (by decide) (Nat.le_max_left _ _)
      have hround := le_roundUp size halign
      have hmax := Block.max_le_sizeFor w size align
      rw [hcarve.size_eq, Block.fresh, hsize]
      dsimp only
      omega
    · rw [hcarve.size_eq]
      simp only [Block.fresh] at hrest ⊢
      omega
    · intro block hblock
      rw [hcarve.base_eq]
      exact ha.stop_le_frontier hblock

/-- What was handed out stays handed out. -/
theorem Reserved.encloses (h : Reserved a size align found b) (hr : a.Encloses r) :
    b.Encloses r := by
  obtain ⟨block, hblock, hstart, hstop⟩ := hr
  cases h with
  | nothing => exact ⟨block, hblock, hstart, hstop⟩
  | refused => exact ⟨block, hblock, hstart, hstop⟩
  | @carved newest rest older start hblocks hcarve =>
    rw [hblocks] at hblock
    rcases List.mem_cons.mp hblock with rfl | hblock
    · have hrest := hcarve.free_eq
      refine ⟨rest, List.mem_cons_self, ?_, ?_⟩
      · rw [hcarve.base_eq]
        omega
      · rwa [Block.stop, hcarve.base_eq, hcarve.size_eq]
    · exact ⟨block, List.mem_cons_of_mem _ hblock, hstart, hstop⟩
  | acquired => exact ⟨block, List.mem_cons_of_mem _ hblock, hstart, hstop⟩

/-- What is handed out next is handed out, unless it has no bytes and there are no blocks. -/
theorem Reserved.encloses_self (ha : a.Stacked) (h : Reserved a size align (some start) b) :
    (⟨start, roundUp size align⟩ : Region) = .empty ∨
      b.Encloses ⟨start, roundUp size align⟩ := by
  cases h with
  | nothing hblocks hsize =>
    refine .inl ?_
    rw [hsize, roundUp_zero]
    rfl
  | @carved newest rest older start hblocks hcarve =>
    have hfree := ha.free_le newest (by simp [hblocks])
    have hrest := hcarve.free_eq
    refine .inr ⟨rest, List.mem_cons_self, ?_, ?_⟩
    · rw [hcarve.base_eq]
      exact Nat.le_of_eq hcarve.start_eq.symm
    · simp only [Region.stop, Block.stop, hcarve.start_eq, hcarve.base_eq, hcarve.size_eq]
      omega
  | @acquired found start rest hfull hfound hcarve =>
    have hrest := hcarve.free_eq
    refine .inr ⟨rest, List.mem_cons_self, ?_, ?_⟩
    · rw [hcarve.base_eq]
      exact Nat.le_of_eq hcarve.start_eq.symm
    · simp only [Region.stop, Block.stop, hcarve.start_eq, hcarve.base_eq, hcarve.size_eq,
        Block.fresh] at hrest ⊢
      omega

/-- And it lies apart from all that was handed out before. -/
theorem Reserved.apart (ha : a.Stacked) (h : Reserved a size align (some start) b)
    (hr : r = .empty ∨ a.Encloses r) : Region.Apart ⟨start, roundUp size align⟩ r := by
  rcases hr with rfl | ⟨block, hblock, hstart, hstop⟩
  · exact .inr (Nat.zero_le _)
  cases h with
  | nothing hblocks hsize =>
    rw [hblocks] at hblock
    cases hblock
  | @carved newest rest older start hblocks hcarve =>
    have hrest := hcarve.free_eq
    have hnew := hcarve.start_eq
    rw [hblocks] at hblock
    rcases List.mem_cons.mp hblock with rfl | hblock
    · refine .inl ?_
      simp only [Region.stop]
      omega
    · have hbehind := ha.behind
      rw [hblocks] at hbehind
      have hle := (List.pairwise_cons.mp hbehind).1 block hblock
      refine .inr ?_
      dsimp only
      omega
  | acquired hfull hfound hcarve =>
    have hle := ha.stop_le_frontier hblock
    have hnew := hcarve.start_eq
    simp only [Block.fresh] at hnew
    refine .inr ?_
    dsimp only
    omega

theorem Reserved.aligned (ha : a.Stacked) (halign : align ∣ maxAlign)
    (h : Reserved a size align (some start) b) : align ∣ start := by
  cases h with
  | nothing => exact Nat.dvd_zero _
  | @carved newest rest older start hblocks hcarve =>
    exact hcarve.aligned (Nat.dvd_trans halign (ha.aligned newest (by simp [hblocks])).1)
  | acquired hfull hfound hcarve =>
    exact hcarve.aligned (Nat.dvd_trans halign ha.maxAlign_dvd_frontier)

end Stacked

end Arena
end ArithLexer
