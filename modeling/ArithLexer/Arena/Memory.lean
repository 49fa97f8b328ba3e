/-!
# Byte memory

The contents of an address space and the regions of it that are read and
written. A memory is the record of what was written; an address holds what the
last patch on it says (`byteAt`), and a region is read without a look at the
patches that cannot matter for it (`read_eq`). Words are kept with their lowest
byte first. `read_write` and `read_write_of_disjoint` say all that a write does.
-/

namespace ArithLexer

structure Region where
  start : Nat
  length : Nat
  deriving DecidableEq, Repr

namespace Region

def empty : Region := ⟨0, 0⟩

instance : Inhabited Region := ⟨empty⟩

variable (r : Region)

def stop : Nat := r.start + r.length

/-- Whether the region starts at a multiple of `align`, as a region without bytes
always does. -/
def isAligned (align : Nat) : Bool := r.length == 0 || r.start % align == 0

/-- Whether two regions have an address in common. -/
def overlaps (s : Region) : Bool :=
  decide (r.length ≠ 0 ∧ s.length ≠ 0 ∧ r.start < s.stop ∧ s.start < r.stop)

def holds (address : Nat) : Bool := decide (r.start ≤ address ∧ address < r.stop)

/-- Whether all of another region lies in this one. -/
def covers (s : Region) : Bool := decide (r.start ≤ s.start ∧ s.stop ≤ r.stop)

variable {r}

theorem holds_iff {address : Nat} :
    r.holds address ↔ r.start ≤ address ∧ address < r.start + r.length :=
  decide_eq_true_iff

theorem holds_of_covers {s : Region} {address : Nat} (h : r.covers s) (hs : s.holds address) :
    r.holds address := by
  have hc := of_decide_eq_true h
  rw [holds_iff] at hs ⊢
  unfold stop at hc
  omega

theorem overlaps_of_holds {s : Region} {address : Nat} (hr : r.holds address)
    (hs : s.holds address) : r.overlaps s := by
  rw [holds_iff] at hr hs
  refine decide_eq_true ?_
  unfold stop
  omega

theorem holds_add {k : Nat} (h : k < r.length) : r.holds (r.start + k) :=
  holds_iff.mpr ⟨Nat.le_add_right _ _, Nat.add_lt_add_left h _⟩

end Region

/-- What was written to a region: its `k`-th byte has the value `value k`. -/
structure Patch where
  region : Region
  value : Nat → UInt8

namespace Patch

/-- The byte of an address that nobody has written. It is not zero, so that an
operation which promises zeros has to write them. -/
def unwritten : UInt8 := 0xCD

/-- The byte that the first patch with an address has there. -/
def byteIn (address : Nat) : List Patch → UInt8
  | [] => unwritten
  | p :: older =>
    if p.region.holds address then p.value (address - p.region.start) else byteIn address older

/-- The patches that matter for a region: those that overlap it, up to the first
one that covers it. -/
def reaching (r : Region) : List Patch → List Patch
  | [] => []
  | p :: older =>
    if p.region.covers r then [p]
    else if p.region.overlaps r then p :: reaching r older
    else reaching r older

theorem byteIn_reaching {r : Region} {address : Nat} (h : r.holds address) (patches : List Patch) :
    byteIn address (reaching r patches) = byteIn address patches := by
  induction patches with
  | nil => rfl
  | cons p older ih =>
    unfold reaching
    split
    · next hc => simp [byteIn, Region.holds_of_covers hc h]
    · split
      · simp [byteIn, ih]
      · next ho =>
        have hp : ¬ p.region.holds address := fun hp => ho (Region.overlaps_of_holds hp h)
        simp [byteIn, hp, ih]

end Patch

/-- Everything that was written, the last patch first. -/
structure Memory where
  patches : List Patch

namespace Memory

def fresh : Memory := ⟨[]⟩

instance : Inhabited Memory := ⟨fresh⟩

variable (m : Memory)

def byteAt (address : Nat) : UInt8 := Patch.byteIn address m.patches

/-- Gives the `k`-th byte of a region the value `value k`. -/
def write (r : Region) (value : Nat → UInt8) : Memory := ⟨⟨r, value⟩ :: m.patches⟩

def read (r : Region) : List UInt8 :=
  let patches := Patch.reaching r m.patches
  List.ofFn fun k : Fin r.length => Patch.byteIn (r.start + k) patches

@[simp] theorem length_read (r : Region) : (m.read r).length = r.length := by simp [read]

theorem read_eq (r : Region) :
    m.read r = List.ofFn fun k : Fin r.length => m.byteAt (r.start + k) := by
  simp only [read, byteAt]
  congr 1
  funext k
  exact Patch.byteIn_reaching (Region.holds_add k.isLt) m.patches

/-- Combines the bytes of a region in order, without a list of them. -/
def fold {β : Type} (r : Region) (f : β → UInt8 → β) (init : β) : β :=
  let patches := Patch.reaching r m.patches
  r.length.fold (fun k _ acc => f acc (Patch.byteIn (r.start + k) patches)) init

theorem fold_eq {β : Type} (r : Region) (f : β → UInt8 → β) (init : β) :
    m.fold r f init = (m.read r).foldl f init := by
  simp only [fold, read]
  generalize r.length = n
  induction n with
  | zero => rfl
  | succ n ih =>
    rw [Nat.fold_succ, ih, List.ofFn_succ_last, List.foldl_append]
    simp

theorem byteAt_write (r : Region) (value : Nat → UInt8) (address : Nat) :
    (m.write r value).byteAt address =
      if r.holds address then value (address - r.start) else m.byteAt address := rfl

theorem read_write (r : Region) (value : Nat → UInt8) :
    (m.write r value).read r = List.ofFn fun k : Fin r.length => value k := by
  rw [read_eq]
  congr 1
  funext k
  rw [byteAt_write, if_pos (Region.holds_add k.isLt), Nat.add_sub_cancel_left]

theorem read_write_of_disjoint {r s : Region} (value : Nat → UInt8)
    (h : r.stop ≤ s.start ∨ s.stop ≤ r.start) : (m.write s value).read r = m.read r := by
  rw [read_eq, read_eq]
  congr 1
  funext k
  have hk := k.isLt
  rw [byteAt_write, if_neg]
  rw [Region.holds_iff]
  simp only [Region.stop] at h
  omega

end Memory

/-- The bytes of a word of the given width, lowest first. -/
def wordBytes : (width word : Nat) → List UInt8
  | 0, _ => []
  | width + 1, word => UInt8.ofNat word :: wordBytes width (word / 256)

/-- The word that bytes spell, lowest first. -/
def wordOfBytes (bytes : List UInt8) : Nat :=
  bytes.foldr (fun byte word => byte.toNat + 256 * word) 0

@[simp] theorem length_wordBytes (width word : Nat) : (wordBytes width word).length = width := by
  induction width generalizing word with
  | zero => rfl
  | succ width ih => simp [wordBytes, ih]

theorem wordOfBytes_wordBytes (width word : Nat) :
    wordOfBytes (wordBytes width word) = word % Nat.pow 256 width := by
  change _ = word % 256 ^ width
  induction width generalizing word with
  | zero => simp [wordBytes, wordOfBytes, Nat.mod_one]
  | succ width ih =>
    have h := ih (word / 256)
    simp only [wordOfBytes] at h
    simp only [wordBytes, wordOfBytes, List.foldr_cons, h, Nat.pow_succ, Nat.mul_comm _ 256,
      Nat.mod_mul]
    simp

end ArithLexer
