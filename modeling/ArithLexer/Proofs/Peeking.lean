import ArithLexer.Proofs.Traversal

/-!
# Peeking

Peeking looks at a byte that advancing has yet to reach. What advancing will
answer is told by the source alone (`advanceMany_behind`): the bytes from the
position on, and nothing behind the last. Peeking finds the answer at its
distance unless the offset there is past the largest one (`peek_behind`): the
offset is computed before anything tells that the source ends earlier.
-/

namespace ArithLexer
namespace Cursor

variable {source : Array UInt8} {n : Nat}

/-- One advance answers with the byte at the position, or with nothing at the end. -/
theorem advance_behind_getElem? (hc : ∀ m, Position.Countable source.toList m) (n : Nat) :
    (behind source n).advance = .ok (source.toList[n]?, behind source (n + 1)) := by
  cases hb : source.toList[n]? with
  | none =>
    have hn : source.size ≤ n := by simpa using hb
    rw [advance_behind_of_none hb, behind_succ_of_size_le hn]
  | some b => exact advance_behind hb (hc _)

/-- The next answers of a cursor are the bytes from its position on. -/
theorem advanceMany_behind (hc : ∀ m, Position.Countable source.toList m) (count n : Nat) :
    advanceMany count (behind source n) =
      .ok ((List.range count).map fun i => source.toList[n + i]?, behind source (n + count)) := by
  induction count generalizing n with
  | zero => rfl
  | succ count ih =>
    have hfirst := advance_behind_getElem? hc n
    have hrest := ih (n + 1)
    simp [advanceMany, hfirst, hrest, List.range_succ_eq_map, Function.comp_def, Nat.add_assoc,
      Nat.add_comm 1, bind, Except.bind, pure, Except.pure]

theorem peek_behind (hn : n ≤ source.size) (ahead : Nat) :
    (behind source n).peek ahead =
      if n + ahead ≤ sizeMax then .ok source.toList[n + ahead]? else .error .offsetOverflow := by
  simp [peek, offset_behind hn]

/-- The last of some answers of a cursor is the byte at its distance. -/
theorem advanceMany_behind_getElem? (hc : ∀ m, Position.Countable source.toList m)
    (n ahead : Nat) :
    ∃ answers d, advanceMany (ahead + 1) (behind source n) = .ok (answers, d) ∧
      answers[ahead]? = some source.toList[n + ahead]? := by
  refine ⟨_, _, advanceMany_behind hc (ahead + 1) n, ?_⟩
  rw [List.getElem?_map, List.getElem?_range (Nat.lt_succ_self ahead)]
  rfl

/-- Wherever a cursor stands, peeking some bytes ahead finds what the advance after as many
others answers, if and only if the offset there is not past the largest one. If it is, advancing
has long come to the end and answers with nothing, and peeking breaks its contract. -/
theorem peek_agrees_iff (source : Array UInt8) (hs : source.size ≤ 2 ^ 32 - 2)
    (moves : List Move) (ahead : Nat) :
    ∃ c answers d answer, runMoves moves (.new source) = .ok c ∧
      advanceMany (ahead + 1) c = .ok (answers, d) ∧ answers[ahead]? = some answer ∧
      answer = source.toList[c.offset + ahead]? ∧
      (c.peek ahead = .ok answer ↔ c.offset + ahead ≤ sizeMax) ∧
      (sizeMax < c.offset + ahead → answer = none ∧ c.peek ahead = .error .offsetOverflow) := by
  have hc := countable_of_size_le hs
  obtain ⟨n, hn, hmoves⟩ := runMoves_behind hc (Nat.zero_le _) moves
  obtain ⟨answers, d, hanswers, hanswer⟩ := advanceMany_behind_getElem? hc n ahead
  have hpeek := peek_behind hn ahead
  refine ⟨_, answers, d, _, hmoves, hanswers, hanswer, ?_, ?_, ?_⟩
  · rw [offset_behind hn]
  · rw [hpeek, offset_behind hn]
    by_cases hle : n + ahead ≤ sizeMax
    · simp [hle]
    · simp [hle]
  · rw [hpeek, offset_behind hn]
    intro hlt
    -- no source is as long as that
    have hsize : source.toList.length ≤ n + ahead := by
      rw [Array.length_toList]
      unfold sizeMax at hlt
      omega
    exact ⟨List.getElem?_eq_none hsize, if_neg (Nat.not_le.mpr hlt)⟩

/-- The source `12`, a line feed and `3`, from its second byte on. -/
theorem peek_agrees_on_second_line :
    ∃ c, runMoves [.advance] (.new #[0x31, 0x32, 0x0A, 0x33]) = .ok c ∧
      c.peek 2 = .ok (some 0x33) := by
  obtain ⟨c, answers, d, answer, hmoves, -, -, hanswer, hpeek, -⟩ :=
    peek_agrees_iff #[0x31, 0x32, 0x0A, 0x33] (by decide) [.advance] 2
  have hc : c = behind #[0x31, 0x32, 0x0A, 0x33] 1 := (Except.ok.inj hmoves).symm
  have hfound : c.peek 2 = .ok answer := hpeek.mpr (by rw [hc]; decide)
  rw [hanswer, hc] at hfound
  exact ⟨c, hmoves, by rw [hc]; exact hfound⟩

/-- Behind the first byte the largest distance leads past the largest offset: there advancing
answers with nothing, and peeking breaks its contract. -/
theorem peek_overflows_behind_first_byte :
    ∃ c answers d, runMoves [.advance] (.new #[0x31]) = .ok c ∧
      advanceMany (sizeMax + 1) c = .ok (answers, d) ∧ answers[sizeMax]? = some none ∧
      c.peek sizeMax = .error .offsetOverflow := by
  have hmoves : runMoves [.advance] (.new #[0x31]) = .ok (behind #[0x31] 1) := by rfl
  have hsize : #[(0x31 : UInt8)].size ≤ 2 ^ 32 - 2 := by decide
  obtain ⟨answers, d, hanswers, hanswer⟩ :=
    advanceMany_behind_getElem? (countable_of_size_le hsize) 1 sizeMax
  have hend : #[(0x31 : UInt8)].toList[1 + sizeMax]? = none :=
    List.getElem?_eq_none (by simp)
  have hn : 1 ≤ #[(0x31 : UInt8)].size := by decide
  have hpeek := peek_behind hn sizeMax
  rw [if_neg (by omega)] at hpeek
  exact ⟨_, answers, d, hmoves, hanswers, by rw [hanswer, hend], hpeek⟩

end Cursor
end ArithLexer
