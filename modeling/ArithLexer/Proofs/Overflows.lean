import ArithLexer.Proofs.Scans
import ArithLexer.Proofs.Histories

/-!
# Counters that end

The only fault that a lexer can end in is a line or column that its counter
cannot hold, and whatever it did before, it is sound up to there
(`Lexer.history_answers`). For a scan the fault is told by the bytes up to the
stop: `scan_overflows_iff` says that it comes of a line that is too long, or of
too many lines.
-/

namespace ArithLexer

/-- Bytes that no counter holds: a stretch without line feeds that is too long for the
columns, or too many line feeds for the lines. -/
def Overlong (bytes : List UInt8) : Prop :=
  (∃ run, run <:+: bytes ∧ lineFeed ∉ run ∧ 2 ^ 32 - 1 ≤ run.length) ∨
    2 ^ 32 - 1 ≤ bytes.count lineFeed

section Overlong

variable {text run : List UInt8} {n : Nat}

theorem Position.length_lt_column_behind (before : List UInt8) (h : lineFeed ∉ run) :
    run.length < (Position.behind (before ++ run)).column := by
  induction run using List.reverseRecOn with
  | nil =>
    simp only [List.length_nil, Position.behind]
    omega
  | append_singleton run b ih =>
    have hrun : lineFeed ∉ run := fun hm => h (by simp [hm])
    have hb : b ≠ lineFeed := fun he => h (by simp [he])
    have hlt := ih hrun
    rw [← List.append_assoc, Position.behind_concat_of_ne _ hb, List.length_append]
    simpa using hlt

/-- The counters last over a stretch of text if it is not too long for them. -/
theorem countable_iff_not_overlong :
    Position.Countable text n ↔ ¬ Overlong (text.take n) := by
  constructor
  · rintro hc (⟨run, ⟨before, after, htake⟩, hrun, hlength⟩ | hcount)
    · have hle : (before ++ run).length ≤ n := by
        have hlen := congrArg List.length htake
        rw [List.length_append, List.length_take] at hlen
        omega
      have htaken : text.take (before ++ run).length = before ++ run := by
        rw [← Nat.min_eq_left hle, ← List.take_take, ← htake, List.take_left]
      have hcolumn := (hc _ hle).2
      rw [htaken] at hcolumn
      have hlt := Position.length_lt_column_behind before hrun
      rw [counterMax] at hcolumn
      omega
    · have hline := (hc n le_rfl).1
      rw [counterMax, Position.behind] at hline
      dsimp only at hline
      omega
  · intro hfits m hm
    have htaken : text.take m <+: text.take n := List.take_prefix_take_left hm
    constructor
    · by_contra hline
      refine hfits (.inr ?_)
      have hcount := htaken.sublist.count_le lineFeed
      rw [counterMax, Position.behind] at hline
      dsimp only at hline
      omega
    · by_contra hcolumn
      refine hfits (.inl ⟨(text.take m).rtakeWhile (· != lineFeed), ?_, ?_, ?_⟩)
      · exact (List.rtakeWhile_suffix _ _).isInfix.trans htaken.isInfix
      · intro hmem
        simpa using List.mem_rtakeWhile_imp hmem
      · rw [counterMax, Position.behind] at hcolumn
        dsimp only at hcolumn
        omega

/-- A line of one byte that does not stop the scan. -/
theorem overlong_replicate {policy : Policy} {b : UInt8} (hn : 2 ^ 32 - 1 ≤ n)
    (hb : b ≠ lineFeed) (hs : policy.stops b = false) :
    Overlong ((List.replicate n b).take (stopIndex policy (List.replicate n b) + 1)) := by
  have hstop : stopIndex policy (List.replicate n b) = (List.replicate n b).length := by
    rw [stopIndex, List.findIdx_eq_length]
    intro c hc
    rwa [List.eq_of_mem_replicate hc]
  rw [hstop, List.take_of_length_le (Nat.le_succ _)]
  refine .inl ⟨_, List.infix_rfl, ?_, ?_⟩
  · intro hmem
    exact hb (List.eq_of_mem_replicate hmem).symm
  · rwa [List.length_replicate]

end Overlong

namespace Lexer

variable {l : Lexer}

/-- A scan ends in a fault if a counter ends in the bytes up to its stop, whatever the lexer
did before. No history of a lexer ends in another fault, and none in any if the source is not
too long for a single line. -/
theorem scan_overflows_iff (source : Array UInt8) (config : Config) (before : List Operation)
    {earlier : List Outcome}
    (hbefore : history before (withConfig source config) = .ok (earlier, l)) :
    ((∃ fault, l.scan = .error fault) ↔
      Overlong (source.toList.take (stopIndex config.unknownChars source.toList + 1))) ∧
    (∀ ops fault, history ops l = .error fault → fault = .positionOverflow) ∧
    (source.size ≤ 2 ^ 32 - 2 → ∀ ops, ∃ outcomes m, history ops l = .ok (outcomes, m)) := by
  have hl := (history_answers (sound_withConfig source config) before).of_ok hbefore
  have hconfig : l.config = config := hl.config_eq
  refine ⟨?_, fun ops fault hfault => (history_answers hl.sound ops).fault_eq hfault, ?_⟩
  · have hcases := scan_cases hl.sound.source_eq
    rw [hconfig, firstFrom_eq_stopIndex, countable_iff_not_overlong, not_not] at hcases
    rcases hcases with ⟨hfits, r, m, hscan, -⟩ | ⟨hover, hscan⟩
    · refine ⟨?_, fun hover => absurd hover hfits⟩
      rintro ⟨fault, hfault⟩
      rw [hscan] at hfault
      cases hfault
    · exact ⟨fun _ => hover, fun _ => ⟨_, hscan⟩⟩
  · intro hs ops
    obtain ⟨outcomes, m, hhistory, -⟩ :=
      (history_answers hl.sound ops).exists_ok (countable_of_size_le hs)
    exact ⟨outcomes, m, hhistory⟩

/-- One digit more than a line can have. -/
theorem scan_overflows_on_long_number :
    (∃ fault, (withConfig (Array.replicate (2 ^ 32 - 1) 0x31) .default).scan = .error fault) ∧
      ∀ fault, history [.nextToken] (withConfig (Array.replicate (2 ^ 32 - 1) 0x31) .default) =
        .error fault → fault = .positionOverflow := by
  obtain ⟨hscan, hfaults, -⟩ :=
    scan_overflows_iff (Array.replicate (2 ^ 32 - 1) 0x31) .default [] rfl
  refine ⟨hscan.mpr ?_, hfaults _⟩
  rw [Array.toList_replicate]
  exact overlong_replicate le_rfl (by decide) (stops_of_isDigit (by decide))

end Lexer
end ArithLexer
