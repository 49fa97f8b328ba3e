import ArithLexer.Proofs.Peeking

/-!
# Longest prefixes

Eating bytes as long as they satisfy a predicate takes the longest prefix of the
unread bytes that does (`longest_takeWhile`). The cursor is then the one that as
many advances lead to (`advanceMany_of_unread`), so its line and column are in
step whatever was eaten, and the slice from an earlier offset is cut out of the
source up to there (`sliceFrom_behind`).
-/

namespace ArithLexer

/-- The longest prefix of some bytes all of which satisfy a predicate. -/
structure Longest (p : UInt8 → Bool) (bytes taken : List UInt8) : Prop where
  front : taken <+: bytes
  accepted : ∀ b ∈ taken, p b = true
  longest : ∀ other, other <+: bytes → (∀ b ∈ other, p b = true) → other <+: taken

section Longest

variable {p : UInt8 → Bool} {bytes taken : List UInt8}

theorem longest_takeWhile (p : UInt8 → Bool) (bytes : List UInt8) :
    Longest p bytes (bytes.takeWhile p) := by
  refine ⟨List.takeWhile_prefix p, fun b hb => List.mem_takeWhile_imp hb, ?_⟩
  rintro other ⟨rest, rfl⟩ hother
  rw [List.takeWhile_append_of_pos hother]
  exact List.prefix_append _ _

theorem Longest.eq_takeWhile (h : Longest p bytes taken) : taken = bytes.takeWhile p := by
  have htaken := (longest_takeWhile p bytes).longest taken h.front h.accepted
  have hother := h.longest _ (List.takeWhile_prefix p) fun b hb => List.mem_takeWhile_imp hb
  exact htaken.eq_of_length_le hother.length_le

theorem drop_length_takeWhile (p : UInt8 → Bool) (bytes : List UInt8) :
    bytes.drop (bytes.takeWhile p).length = bytes.dropWhile p := by
  have hdrop : (bytes.takeWhile p ++ bytes.dropWhile p).drop (bytes.takeWhile p).length =
      bytes.dropWhile p := List.drop_left
  rwa [List.takeWhile_append_dropWhile] at hdrop

theorem takeWhile_dropWhile (p : UInt8 → Bool) (bytes : List UInt8) :
    (bytes.dropWhile p).takeWhile p = [] := by
  rw [List.takeWhile_eq_nil_iff]
  intro hlt
  have hhead := List.head_dropWhile_not p (List.length_pos_iff.mp hlt)
  simpa [List.head_eq_getElem] using hhead

/-- Looking up the first bytes one after the other finds a prefix of that length. -/
theorem map_getElem?_of_front (h : taken <+: bytes) :
    ((List.range taken.length).map fun i => bytes[i]?) = taken.map some := by
  apply List.ext_getElem (by simp)
  intro i hi _
  have htaken : i < taken.length := by simpa using hi
  simp [h.getElem htaken, htaken.trans_le h.length_le]

end Longest

namespace Cursor

variable {source : Array UInt8} {n : Nat} {taken : List UInt8}

theorem unread_behind (hn : n ≤ source.size) :
    (behind source n).unread = source.toList.drop n := by
  rw [unread, offset_behind hn, source_behind]

/-- As many advances as a prefix of the unread bytes is long answer with that prefix. -/
theorem advanceMany_of_unread (hc : ∀ m, Position.Countable source.toList m)
    (h : taken <+: source.toList.drop n) :
    advanceMany taken.length (behind source n) =
      .ok (taken.map some, behind source (n + taken.length)) := by
  rw [advanceMany_behind hc, ← map_getElem?_of_front h]
  simp

theorem sliceFrom_behind (hn : n ≤ source.size) (start : Nat) :
    (behind source n).sliceFrom start =
      if start ≤ n then .ok ((source.toList.take n).drop start) else .error .reversedSlice := by
  simp [sliceFrom, offset_behind hn, List.extract_eq_take_drop, List.drop_take]

/-- Wherever a cursor stands, eating as long as a predicate holds takes the longest prefix of
the unread bytes that satisfies it and leads to the cursor behind as many advances. There is
nothing more to eat there, and the slices up to there are cut out of the source. -/
theorem eatWhile_takes_longest (source : Array UInt8) (hs : source.size ≤ 2 ^ 32 - 2)
    (moves : List Move) (p : UInt8 → Bool) :
    ∃ c d taken, runMoves moves (.new source) = .ok c ∧ c.eatWhile p = .ok d ∧
      Longest p c.unread taken ∧ c.unread = taken ++ d.unread ∧
      d.offset = c.offset + taken.length ∧
      advanceMany taken.length c = .ok (taken.map some, d) ∧
      (∀ b, d.current? = some b → p b = false) ∧ d.eatWhile p = .ok d ∧
      (∀ start ≤ d.offset,
        d.sliceFrom start = .ok ((source.toList.take d.offset).drop start)) ∧
      (∀ start, (∃ fault, d.sliceFrom start = .error fault) ↔ d.offset < start) ∧
      d.sliceFrom c.offset = .ok taken := by
  have hc := countable_of_size_le hs
  obtain ⟨n, hn, hmoves⟩ := runMoves_behind hc (Nat.zero_le _) moves
  let taken := (source.toList.drop n).takeWhile p
  have hlongest : Longest p (source.toList.drop n) taken := longest_takeWhile p _
  have hend : n + taken.length ≤ source.size := by
    have hle := hlongest.front.length_le
    have hsize := source.length_toList
    rw [List.length_drop] at hle
    omega
  have hrest : source.toList.drop (n + taken.length) = (source.toList.drop n).dropWhile p := by
    rw [← drop_length_takeWhile, List.drop_drop]
  have heat : (behind source n).eatWhile p = .ok (behind source (n + taken.length)) := by
    rw [eatWhile_behind_eq p (hc n), if_pos (hc _)]
  have hslice := sliceFrom_behind hend
  refine ⟨_, _, taken, hmoves, heat, ?_, ?_, ?_, advanceMany_of_unread hc hlongest.front, ?_, ?_,
    ?_, ?_, ?_⟩
  · rwa [unread_behind hn]
  · rw [unread_behind hn, unread_behind hend, hrest, List.takeWhile_append_dropWhile]
  · rw [offset_behind hend, offset_behind hn]
  · intro b hb
    rw [current?_eq_head?, unread_behind hend, hrest] at hb
    have hhead := List.head?_dropWhile_not p (source.toList.drop n)
    rwa [hb] at hhead
  · rw [eatWhile_behind_eq p (hc _), if_pos (hc _), hrest, takeWhile_dropWhile]
    rfl
  · intro start hstart
    rw [offset_behind hend] at hstart ⊢
    rw [hslice, if_pos hstart]
  · intro start
    rw [hslice, offset_behind hend]
    by_cases hstart : start ≤ n + taken.length
    · simp [hstart]
    · simp [hstart, Nat.not_le.mp hstart]
  · have hcut : (source.toList.take (n + taken.length)).drop n = taken := by
      rw [List.drop_take, Nat.add_sub_cancel_left]
      exact (List.prefix_iff_eq_take.mp hlongest.front).symm
    rw [offset_behind hn, hslice, if_pos (Nat.le_add_right _ _), hcut]

/-- The source `1`, a line feed, `2` and `x`, eaten from its second byte on up to the letter. -/
theorem eatWhile_takes_longest_over_line :
    ∃ c d, runMoves [.advance] (.new #[0x31, 0x0A, 0x32, 0x78]) = .ok c ∧
      c.eatWhile (· != 0x78) = .ok d ∧ advanceMany 2 c = .ok ([some 0x0A, some 0x32], d) ∧
      d.eatWhile (· != 0x78) = .ok d ∧ d.sliceFrom c.offset = .ok [0x0A, 0x32] := by
  obtain ⟨c, d, taken, hmoves, heat, hlongest, -, -, hadvance, -, hagain, -, -, hslice⟩ :=
    eatWhile_takes_longest #[0x31, 0x0A, 0x32, 0x78] (by decide) [.advance] (· != 0x78)
  have hc : c = behind #[0x31, 0x0A, 0x32, 0x78] 1 := (Except.ok.inj hmoves).symm
  have htaken : taken = [0x0A, 0x32] := by
    rw [hlongest.eq_takeWhile, hc]
    decide
  rw [htaken] at hadvance hslice
  exact ⟨c, d, hmoves, heat, hadvance, hagain, hslice⟩

end Cursor
end ArithLexer
