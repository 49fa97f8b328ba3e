import ArithLexer.Proofs.Reservations
import Mathlib.Data.List.OfFn

/-!
# Live allocations

A session is an arena together with what it handed out since it was last
released, and what was last written through each of these allocations. Whatever
is asked of it (`Session.Sound`), every allocation starts on its alignment and
lies where its block is not free, no two allocations share an address, and
reading one gives back what was written through it. This is what one operation
keeps (`perform_sound`), and by induction what a run keeps (`run_sound`).
-/

namespace ArithLexer

/-- Writing to the front of a region leaves the rest of it. -/
theorem Memory.read_write_front (m : Memory) {r : Region} {n : Nat} (hn : n ≤ r.length)
    (value : Nat → UInt8) : (m.write ⟨r.start, n⟩ value).read r =
      (List.ofFn fun k : Fin n => value k) ++ (m.read r).drop n := by
  rw [read_eq, read_eq]
  apply List.ext_getElem
  · simp only [List.length_ofFn, List.length_append, List.length_drop]
    omega
  intro k hk _
  rw [List.length_ofFn] at hk
  rw [List.getElem_ofFn, byteAt_write, List.getElem_append]
  by_cases hkn : k < n
  · rw [if_pos (Region.holds_iff.mpr ⟨Nat.le_add_right _ _, Nat.add_lt_add_left hkn _⟩),
      dif_pos (by rwa [List.length_ofFn]), List.getElem_ofFn]
    simp
  · rw [if_neg, dif_neg (by rwa [List.length_ofFn])]
    · simp only [List.length_ofFn, List.getElem_drop, List.getElem_ofFn]
      rw [Nat.add_sub_cancel' (Nat.not_lt.mp hkn)]
    · rw [Region.holds_iff]
      dsimp only
      omega

theorem Memory.take_read (m : Memory) {r : Region} {n : Nat} (hn : n ≤ r.length) :
    (m.read r).take n = m.read ⟨r.start, n⟩ := by
  rw [read_eq, read_eq]
  apply List.ext_getElem
  · simpa using Nat.min_eq_left hn
  · intro k _ _
    simp

theorem ofFn_getD {bytes : List UInt8} {n : Nat} (h : bytes.length = n) :
    (List.ofFn fun k : Fin n => bytes.toArray.getD k 0) = bytes := by
  subst h
  apply List.ext_getElem
  · simp
  · intro k _ _
    simp

/-- A number of bytes that an alignment can be, and the width of the words that need it. -/
structure Alignment where
  bytes : Nat
  dvd_maxAlign : bytes ∣ maxAlign

namespace Alignment

/-- No alignment at all. -/
def one : Alignment := ⟨1, Nat.one_dvd _⟩

def strictest : Alignment := ⟨maxAlign, Nat.dvd_refl _⟩

theorem bytes_pos (align : Alignment) : 0 < align.bytes :=
  Nat.pos_of_dvd_of_pos align.dvd_maxAlign (by decide)

end Alignment

/-- What an arena handed out: a region, the alignment that its bytes were reserved on, and
what was last written through it. -/
structure Allocation where
  region : Region
  align : Alignment
  content : List UInt8

namespace Allocation

/-- The bytes that are kept for an allocation. -/
def reservation (p : Allocation) : Region :=
  ⟨p.region.start, roundUp p.region.length p.align.bytes⟩

theorem stop_region_le (p : Allocation) : p.region.stop ≤ p.reservation.stop :=
  Nat.add_le_add_left (le_roundUp _ p.align.bytes_pos) _

/-- Writing to bytes that are not kept for an allocation does not change it. -/
theorem read_write_of_apart {r : Region} {p : Allocation} (h : r.Apart p.reservation) {n : Nat}
    (hn : n ≤ r.length) (m : Memory) (value : Nat → UInt8) :
    (m.write ⟨r.start, n⟩ value).read p.region = m.read p.region := by
  apply Memory.read_write_of_disjoint
  rcases h with hle | hle
  · right
    exact Nat.le_trans (Nat.add_le_add_left hn _) hle
  · left
    exact Nat.le_trans p.stop_region_le hle

end Allocation

/-- An arena, and what it handed out since it was last released, the newest first. -/
structure Session where
  arena : Arena
  live : List Allocation

namespace Session

/-- What can be asked of an arena. Texts are stored as their bytes, single values as slices
of one word. What was handed out may be filled, or changed word by word. -/
inductive Operation where
  | request (size : Nat)
  | demand (size : Nat)
  | storeBytes (bytes : List UInt8)
  | storeWords (width : Alignment) (words : List Nat)
  | storeView (v : View)
  | fill (index : Nat) (byte : UInt8)
  | modifyWord (index : Nat) (width : Alignment) (f : Nat → Nat)
  | release

/-- What comes of an operation. -/
inductive Outcome where
  | allocated (p : Allocation)
  | refused (cause : RequestError)
  | failed (fault : Fault)
  | done

/-- A session with an arena that has handed out nothing. -/
def start (a : Arena) : Session := ⟨a, []⟩

variable (s : Session)

/-- The session after something was handed out. -/
def hold (a : Arena) (p : Allocation) : Outcome × Session := (.allocated p, ⟨a, p :: s.live⟩)

/-- The session after something was stored, or could not be. -/
def keep (stored : Except Fault (Region × Arena)) (align : Alignment) (content : List UInt8) :
    Outcome × Session :=
  match stored with
  | .ok (region, a) => s.hold a ⟨region, align, content⟩
  | .error fault => (.failed fault, s)

/-- What comes of an operation, and the session after it. Nothing comes of writing to what was
not handed out. -/
def perform : Operation → Outcome × Session
  | .request size =>
    match s.arena.request size with
    | (.ok region, a) => s.hold a ⟨region, .strictest, List.replicate size 0⟩
    | (.error cause, a) => (.refused cause, { s with arena := a })
  | .demand size => s.keep (s.arena.demand size) .strictest (List.replicate size 0)
  | .storeBytes bytes => s.keep (s.arena.store bytes 1) .one bytes
  | .storeWords width words =>
    s.keep (s.arena.storeWords width.bytes words) width (words.flatMap (wordBytes width.bytes))
  | .storeView v => s.keep (s.arena.storeView v) .one v.bytes
  | .fill index byte =>
    match s.live[index]? with
    | none => (.done, s)
    | some p =>
      let filled := { p with content := List.replicate p.region.length byte }
      (.done, ⟨s.arena.fill p.region byte, s.live.set index filled⟩)
  | .modifyWord index width f =>
    match s.live[index]? with
    | none => (.done, s)
    | some p =>
      if width.bytes ≤ p.region.length then
        let word := wordBytes width.bytes (f (wordOfBytes (p.content.take width.bytes)))
        let modified := { p with content := word ++ p.content.drop width.bytes }
        (.done, ⟨s.arena.modifyWord width.bytes f p.region, s.live.set index modified⟩)
      else (.done, s)
  | .release => (.done, ⟨s.arena.release, []⟩)

/-- What comes of some operations one after the other, and the session after them. -/
def run : List Operation → Session → List Outcome × Session
  | [], s => ([], s)
  | op :: ops, s =>
    let (outcome, s) := s.perform op
    let (outcomes, s) := run ops s
    (outcome :: outcomes, s)

/-- A session whose allocations lie apart in the blocks of its arena, and hold what was
written through them. -/
structure Sound (s : Session) : Prop where
  stacked : s.arena.Stacked
  aligned : ∀ p ∈ s.live, p.align.bytes ∣ p.region.start
  enclosed : ∀ p ∈ s.live, p.reservation = .empty ∨ s.arena.Encloses p.reservation
  apart : (s.live.map Allocation.reservation).Pairwise Region.Apart
  content : ∀ p ∈ s.live, s.arena.read p.region = p.content

section Sound

variable {s : Session} {a b : Arena} {p q : Allocation} {size first length index i j n : Nat}

theorem sound_start (ha : a.Stacked) : Sound (start a) where
  stacked := ha
  aligned := by simp [start]
  enclosed := by simp [start]
  apart := .nil
  content := by simp [start]

theorem sound_release (hs : Sound s) : Sound ⟨s.arena.release, []⟩ := sound_start hs.stacked.release

/-- Two places in the list of allocations are two allocations that lie apart. -/
theorem Sound.apart_of_ne (hs : Sound s) (hp : s.live[i]? = some p) (hq : s.live[j]? = some q)
    (hij : i ≠ j) : p.reservation.Apart q.reservation := by
  have hapart := List.pairwise_map.mp hs.apart
  rw [List.pairwise_iff_getElem] at hapart
  obtain ⟨hi, rfl⟩ := List.getElem?_eq_some_iff.mp hp
  obtain ⟨hj, rfl⟩ := List.getElem?_eq_some_iff.mp hq
  rcases Nat.lt_or_gt_of_ne hij with hlt | hlt
  · exact hapart i j hi hj hlt
  · exact (hapart j i hj hi hlt).symm

/-! ### One operation -/

/-- What is handed out next lies apart from all that is live. -/
theorem Sound.hold (hs : Sound s) (align : Alignment)
    (h : Arena.Reserved s.arena size align.bytes (some first) b)
    (hsize : roundUp length align.bytes = roundUp size align.bytes) (value : Nat → UInt8) :
    Sound ⟨{ b with memory := b.memory.write ⟨first, length⟩ value },
      ⟨⟨first, length⟩, align, List.ofFn fun k : Fin length => value k⟩ :: s.live⟩ where
  stacked := (h.stacked hs.stacked).with_memory _
  aligned := List.forall_mem_cons.mpr
    ⟨h.aligned hs.stacked align.dvd_maxAlign, hs.aligned⟩
  enclosed := by
    refine List.forall_mem_cons.mpr ⟨?_, fun p hp => (hs.enclosed p hp).imp_right h.encloses⟩
    have hself := h.encloses_self hs.stacked
    rwa [← hsize] at hself
  apart := by
    refine List.pairwise_cons.mpr ⟨?_, hs.apart⟩
    intro r hr
    obtain ⟨p, hp, rfl⟩ := List.mem_map.mp hr
    have hapart := h.apart hs.stacked (hs.enclosed p hp)
    rwa [← hsize] at hapart
  content := by
    refine List.forall_mem_cons.mpr ⟨Memory.read_write _ _ _, ?_⟩
    intro p hp
    have hapart := h.apart hs.stacked (hs.enclosed p hp)
    have hlength := hsize ▸ le_roundUp length align.bytes_pos
    have hread := Allocation.read_write_of_apart hapart hlength b.memory value
    rw [← hs.content p hp]
    exact hread.trans (congrArg (Memory.read · p.region) h.memory_eq)

/-- A region without bytes is handed out for nothing. -/
theorem Sound.hold_empty (hs : Sound s) (align : Alignment) :
    Sound ⟨s.arena, ⟨.empty, align, []⟩ :: s.live⟩ where
  stacked := hs.stacked
  aligned := List.forall_mem_cons.mpr ⟨Nat.dvd_zero _, hs.aligned⟩
  enclosed := List.forall_mem_cons.mpr ⟨.inl (by
    simp [Allocation.reservation, Region.empty]), hs.enclosed⟩
  apart := List.pairwise_cons.mpr ⟨fun r _ => .inl (by
    simp [Allocation.reservation, Region.empty, Region.stop]), hs.apart⟩
  content := List.forall_mem_cons.mpr ⟨by
    simp [Arena.read, Memory.read, Region.empty], hs.content⟩

/-- What was written through an allocation does not move it. -/
theorem map_reservation_set {live : List Allocation} (hp : live[index]? = some p)
    (content : List UInt8) : (live.set index { p with content }).map Allocation.reservation =
      live.map Allocation.reservation := by
  obtain ⟨hlt, rfl⟩ := List.getElem?_eq_some_iff.mp hp
  rw [List.map_set]
  refine (congrArg _ ?_).trans (List.set_getElem_self (by rwa [List.length_map]))
  rw [List.getElem_map]
  rfl

/-- Writing through an allocation, from its start on, changes no other. -/
theorem Sound.rewrite (hs : Sound s) (hp : s.live[index]? = some p)
    (hn : n ≤ p.region.length) (value : Nat → UInt8) :
    Sound ⟨{ s.arena with memory := s.arena.memory.write ⟨p.region.start, n⟩ value },
      s.live.set index
        { p with content := (List.ofFn fun k : Fin n => value k) ++ p.content.drop n }⟩ := by
  have hmem := List.mem_of_getElem? hp
  refine ⟨hs.stacked.with_memory _, ?_, ?_, ?_, ?_⟩
  · intro q hq
    rcases List.mem_or_eq_of_mem_set hq with hq | rfl
    · exact hs.aligned q hq
    · exact hs.aligned p hmem
  · intro q hq
    rcases List.mem_or_eq_of_mem_set hq with hq | rfl
    · exact hs.enclosed q hq
    · exact hs.enclosed p hmem
  · rw [map_reservation_set hp]
    exact hs.apart
  · intro q hq
    -- by place and not by value, since regions without bytes may occur twice
    obtain ⟨j, hj⟩ := List.mem_iff_getElem?.mp hq
    rw [List.getElem?_set] at hj
    split at hj
    · split at hj
      · cases hj
        refine (Memory.read_write_front _ hn value).trans ?_
        rw [← hs.content p hmem]
        rfl
      · cases hj
    · next hne =>
      have hapart := hs.apart_of_ne hp hj hne
      have hlength := Nat.le_trans hn (le_roundUp _ p.align.bytes_pos)
      rw [← hs.content q (List.mem_of_getElem? hj)]
      exact Allocation.read_write_of_apart hapart hlength s.arena.memory value

theorem Sound.length_content (hs : Sound s) (hp : p ∈ s.live) :
    p.content.length = p.region.length := by
  rw [← hs.content p hp]
  exact Memory.length_read _ _

theorem Sound.request (hs : Sound s) {region : Region}
    (h : s.arena.request size = (.ok region, b)) :
    Sound ⟨b, ⟨region, .strictest, List.replicate size 0⟩ :: s.live⟩ := by
  have hrequest := Arena.request_spec s.arena size
  rw [h] at hrequest
  generalize hr : (Except.ok region : Except RequestError Region) = answer at hrequest
  cases hrequest with
  | empty hsize =>
    cases hr
    rw [hsize]
    exact hs.hold_empty .strictest
  | overflow => cases hr
  | refused => cases hr
  | granted hpos hsize hreserved =>
    cases hr
    rw [← List.ofFn_const]
    refine hs.hold .strictest hreserved ?_ fun _ => 0
    exact (roundUp_of_dvd (dvd_roundUp _ _) (by decide)).symm

theorem Sound.demand (hs : Sound s) {region : Region}
    (h : s.arena.demand size = .ok (region, b)) :
    Sound ⟨b, ⟨region, .strictest, List.replicate size 0⟩ :: s.live⟩ := by
  unfold Arena.demand at h
  split at h
  · next hrequest =>
    cases h
    exact hs.request hrequest
  · cases h

theorem Sound.store (hs : Sound s) (align : Alignment) {bytes : List UInt8} {region : Region}
    (h : s.arena.store bytes align.bytes = .ok (region, b)) :
    Sound ⟨b, ⟨region, align, bytes⟩ :: s.live⟩ := by
  have hstored := Arena.store_spec s.arena bytes align.dvd_maxAlign
  rw [h] at hstored
  cases hstored with
  | granted hreserved =>
    have hsound := hs.hold align hreserved rfl fun k => bytes.toArray.getD k 0
    rwa [ofFn_getD rfl] at hsound

theorem Sound.keep (hs : Sound s) {stored : Except Fault (Region × Arena)} {align : Alignment}
    {content : List UInt8}
    (h : ∀ region a, stored = .ok (region, a) →
      Sound ⟨a, ⟨region, align, content⟩ :: s.live⟩) :
    Sound (s.keep stored align content).2 := by
  unfold Session.keep
  split
  · exact h _ _ rfl
  · exact hs

theorem Sound.fill (hs : Sound s) (hp : s.live[index]? = some p) (byte : UInt8) :
    Sound ⟨s.arena.fill p.region byte,
      s.live.set index { p with content := List.replicate p.region.length byte }⟩ := by
  have hlength := hs.length_content (List.mem_of_getElem? hp)
  have hsound := hs.rewrite hp (Nat.le_refl _) fun _ => byte
  rwa [List.drop_of_length_le (Nat.le_of_eq hlength), List.append_nil,
    List.ofFn_const] at hsound

theorem Sound.modifyWord (hs : Sound s) (hp : s.live[index]? = some p)
    (hn : n ≤ p.region.length) (f : Nat → Nat) :
    Sound ⟨s.arena.modifyWord n f p.region,
      s.live.set index
        { p with content :=
            wordBytes n (f (wordOfBytes (p.content.take n))) ++ p.content.drop n }⟩ := by
  have hword : s.arena.read ⟨p.region.start, n⟩ = p.content.take n := by
    rw [← hs.content p (List.mem_of_getElem? hp)]
    exact (Memory.take_read _ hn).symm
  have hsound := hs.rewrite hp hn fun k =>
    (wordBytes n (f (wordOfBytes (p.content.take n)))).toArray.getD k 0
  rw [ofFn_getD (length_wordBytes _ _)] at hsound
  unfold Arena.modifyWord
  rwa [hword]

/-- Whatever is asked of it, a sound session stays sound. -/
theorem perform_sound (hs : Sound s) (op : Operation) : Sound (s.perform op).2 := by
  cases op with
  | request size =>
    unfold perform
    dsimp only
    split
    · next h => exact hs.request h
    · next h =>
      rw [Arena.request_error_eq h]
      exact hs
  | demand size => exact hs.keep fun _ _ h => hs.demand h
  | storeBytes bytes => exact hs.keep fun _ _ h => hs.store .one h
  | storeWords width words => exact hs.keep fun _ _ h => hs.store width h
  | storeView v => exact hs.keep fun _ _ h => hs.store .one h
  | fill index byte =>
    unfold perform
    dsimp only
    split
    · exact hs
    · next hp => exact hs.fill hp byte
  | modifyWord index width f =>
    unfold perform
    dsimp only
    split
    · exact hs
    · next hp =>
      split
      · next hn => exact hs.modifyWord hp hn f
      · exact hs
  | release => exact sound_release hs

/-- To copy a view is to store it. The copy is read from the region that is handed out, in the
arena that holds it. -/
theorem copyInto_cases (s : Session) (v : View) :
    (∃ p b, s.perform (.storeView v) = (.allocated p, ⟨b, p :: s.live⟩) ∧ p.content = v.bytes ∧
      v.copyInto s.arena = .ok (b.view p.region, b)) ∨
    ∃ fault, s.perform (.storeView v) = (.failed fault, s) ∧
      v.copyInto s.arena = .error fault := by
  have hperform : s.perform (.storeView v) = s.keep (s.arena.storeView v) .one v.bytes := rfl
  rw [hperform, View.copyInto]
  cases s.arena.storeView v with
  | ok stored => exact .inl ⟨⟨stored.1, .one, v.bytes⟩, stored.2, rfl, rfl, rfl⟩
  | error fault => exact .inr ⟨fault, rfl, rfl⟩

/-- The copy of a view is the view, and it lies apart from all that is live. -/
theorem Sound.copyInto (hs : Sound s) (v : View) :
    (∃ p b, s.perform (.storeView v) = (.allocated p, ⟨b, p :: s.live⟩) ∧
      v.copyInto s.arena = .ok (v, b) ∧ b.read p.region = v.bytes ∧
      ∀ q ∈ s.live, p.reservation.Apart q.reservation) ∨
    ∃ fault, s.perform (.storeView v) = (.failed fault, s) ∧
      v.copyInto s.arena = .error fault := by
  refine (copyInto_cases s v).imp_left ?_
  rintro ⟨p, b, hperform, hcontent, hcopy⟩
  have hnew := perform_sound hs (.storeView v)
  rw [hperform] at hnew
  have hread : b.read p.region = v.bytes := (hnew.content p List.mem_cons_self).trans hcontent
  refine ⟨p, b, hperform, ?_, hread, ?_⟩
  · rw [hcopy, Arena.view, hread]
  · intro q hq
    exact (List.pairwise_cons.mp hnew.apart).1 _ (List.mem_map_of_mem hq)

/-! ### Runs -/

theorem run_sound (hs : Sound s) (ops : List Operation) : Sound (run ops s).2 := by
  induction ops generalizing s with
  | nil => exact hs
  | cons op ops ih => exact ih (perform_sound hs op)

end Sound

/-- Whatever is asked of an arena, what it handed out since it was last released lies apart in
its blocks, starts on its alignment and holds what was last written through it. A request that
is granted adds a region of zeros, whose rounded size lies apart from all of these. The copy of a
view is one more region that lies apart, with the bytes of the view. -/
theorem allocations_stay_apart {a : Arena} (ha : a.Created) (ops : List Operation) :
    ∃ outcomes s, run ops (start a) = (outcomes, s) ∧
      s.live.Pairwise (fun p q => p.reservation.Apart q.reservation) ∧
      (∀ p ∈ s.live, s.arena.read p.region = p.content ∧ p.align.bytes ∣ p.region.start ∧
        (p.region.length ≠ 0 → ∃ block ∈ s.arena.blocks, maxAlign ∣ block.base ∧
          block.base + block.free ≤ p.reservation.start ∧ p.reservation.stop ≤ block.stop)) ∧
      (∀ size region b, s.arena.request size = (.ok region, b) ∨
          s.arena.demand size = .ok (region, b) →
        region.length = size ∧ b.read region = List.replicate size 0 ∧
          maxAlign ∣ region.start ∧
          ∀ p ∈ s.live, Region.Apart ⟨region.start, roundUp size maxAlign⟩ p.reservation) ∧
      ∀ v : View, (∃ p b, s.perform (.storeView v) = (.allocated p, ⟨b, p :: s.live⟩) ∧
          v.copyInto s.arena = .ok (v, b) ∧ b.read p.region = v.bytes ∧
          ∀ q ∈ s.live, p.reservation.Apart q.reservation) ∨
        ∃ fault, s.perform (.storeView v) = (.failed fault, s) ∧
          v.copyInto s.arena = .error fault := by
  have hs := run_sound (sound_start ha.stacked) ops
  refine ⟨_, _, rfl, List.pairwise_map.mp hs.apart, ?_, ?_, hs.copyInto⟩
  · intro p hp
    refine ⟨hs.content p hp, hs.aligned p hp, ?_⟩
    intro hlength
    rcases hs.enclosed p hp with hempty | ⟨block, hblock, hstart, hstop⟩
    · have hzero : p.reservation.length = 0 := congrArg Region.length hempty
      have hle := le_roundUp p.region.length p.align.bytes_pos
      rw [Allocation.reservation] at hzero
      dsimp only at hzero
      omega
    · exact ⟨block, hblock, (hs.stacked.aligned block hblock).1, hstart, hstop⟩
  · intro size region b h
    have hnew : Sound ⟨b, ⟨region, .strictest, List.replicate size 0⟩ :: _⟩ :=
      h.elim hs.request hs.demand
    have hlength : region.length = size := by
      have hlength := hnew.length_content List.mem_cons_self
      rw [List.length_replicate] at hlength
      exact hlength.symm
    refine ⟨hlength, hnew.content _ List.mem_cons_self, hnew.aligned _ List.mem_cons_self, ?_⟩
    intro p hp
    have hapart := (List.pairwise_cons.mp hnew.apart).1 _ (List.mem_map_of_mem hp)
    rwa [Allocation.reservation, hlength] at hapart

/-- A block that was filled before a release hands out zeros again. -/
theorem allocations_stay_apart_after_release :
    ∃ outcomes s,
      run [.demand 3, .storeView ⟨[0x31]⟩, .fill 1 0xFF, .release, .storeBytes [0x32]]
        (start .empty) = (outcomes, s) ∧
      s.live.Pairwise (fun p q => p.reservation.Apart q.reservation) ∧
      ∀ region b, s.arena.request 3 = (.ok region, b) →
        region.length = 3 ∧ b.read region = [0, 0, 0] := by
  obtain ⟨outcomes, s, hrun, hapart, -, hrequest, -⟩ := allocations_stay_apart .empty
    [.demand 3, .storeView ⟨[0x31]⟩, .fill 1 0xFF, .release, .storeBytes [0x32]]
  refine ⟨outcomes, s, hrun, hapart, ?_⟩
  intro region b h
  obtain ⟨hlength, hzeros, -⟩ := hrequest 3 region b (.inl h)
  exact ⟨hlength, hzeros⟩

end Session
end ArithLexer
