import ArithLexer.Proofs.Pulling
import ArithLexer.Proofs.Shifts

/-!
# Scans of concatenations

A scan that passes over the whole of a text goes on in what is put behind it as
a scan of that alone would, at places that are moved. So the scan of two texts
finds what the scans of both find, one behind the other (`scan_append`). A
number that ends the first text and one that starts the second are one number.
-/

namespace ArithLexer

/-! ### Stops -/

section Stops

variable {policy : Policy} {a : List UInt8}

/-- A scan that passes over the first text stops where that of the second does. -/
theorem stopIndex_append (b : List UInt8) (ha : stopIndex policy a = a.length) :
    stopIndex policy (a ++ b) = a.length + stopIndex policy b := by
  rw [stopIndex] at ha
  rw [stopIndex, List.findIdx_append, if_neg (by omega), Nat.add_comm, stopIndex]

/-- The number at the start of a text is read before a scan stops. -/
theorem digitsEnd_le_stopIndex {b : List UInt8} (hb : digitAt b 0 = true) :
    digitsEnd b 0 ≤ stopIndex policy b := by
  obtain ⟨c, hc, hd⟩ := (Option.any_eq_true _ _).mp hb
  have hle : lexemeEnd b 0 ≤ firstFrom policy.stops b 0 :=
    lexemeEnd_le_firstFrom hc (stops_of_isDigit hd)
  rwa [lexemeEnd_of_isDigit hc hd, firstFrom_zero] at hle

end Stops

/-! ### Seams -/

section Seams

variable {a b : List UInt8} {n : Nat}

theorem boundary_seam_iff : Boundary (a ++ b) a.length ↔
    ¬ (digitAt a (a.length - 1) = true ∧ digitAt b 0 = true) := by
  rw [Boundary, ← digitAt_append_right a b 0, Nat.add_zero]
  rcases Nat.eq_zero_or_pos a.length with hzero | hpos
  · simp [List.length_eq_zero_iff.mp hzero, digitAt]
  · rw [digitAt_append_left (by omega)]
    simp [hpos]

/-- The run of digits that a text ends with. -/
theorem exists_last_digitRun (ha : digitAt a (a.length - 1) = true) :
    ∃ i, DigitRun a i a.length := by
  obtain ⟨i, j, hrun, -, hlt⟩ := exists_digitRun ha
  have hj : j = a.length := by
    have hle := hrun.stop_le_length
    omega
  exact ⟨i, hj ▸ hrun⟩

/-- Where a number goes on behind the seam, the last token of the first text and the first
of the second become one. -/
theorem exists_fused (ha : digitAt a (a.length - 1) = true) (hb : digitAt b 0 = true)
    (hn : digitsEnd b 0 ≤ n) :
    ∃ xs t u ys, gather (tokenAt? a) 0 a.length = xs ++ [t] ∧
      gather (tokenAt? b) 0 n = u :: ys ∧
      (t.kind = .numericLiteral ∧ t.span.stop = a.length) ∧
      (u.kind = .numericLiteral ∧ u.span.start = 0) ∧
      gather (tokenAt? (a ++ b)) 0 (a.length + n) =
        xs ++ (Shift.past a).fuse t u :: ys.map (Shift.past a).token := by
  obtain ⟨i, hlast⟩ := exists_last_digitRun ha
  have hfirst := digitRun_digitsEnd hb boundary_zero
  refine ⟨gather (tokenAt? a) 0 i, .between a .numericLiteral i a.length,
    .between b .numericLiteral 0 (digitsEnd b 0), gather (tokenAt? b) (digitsEnd b 0) n,
    ?_, ?_, ⟨rfl, rfl⟩, ⟨rfl, rfl⟩, gather_tokenAt?_fuse hlast hfirst hn⟩
  · rw [← gather_digitRun hlast, gather_append (Nat.zero_le i) hlast.start_lt_stop.le]
  · rw [← gather_append (Nat.zero_le _) hn, gather_digitRun hfirst]
    rfl

end Seams

/-! ### Scans -/

namespace Lexer

/-- How far the places of a text move behind a source that a lexer has scanned. -/
def shiftBehind (source : Array UInt8) (l : Lexer) : Shift :=
  ⟨source.size, source.toList.count lineFeed, l.cursor.position.column - 1⟩

section Scans

variable {a b : Array UInt8} {config : Config} {stored : Buffer Token} {l : Lexer}

theorem digitAt_last (a : Array UInt8) :
    digitAt a.toList (a.toList.length - 1) = a.back?.any isDigit := by
  simp [digitAt, Array.back?]

theorem digitAt_first (b : Array UInt8) : digitAt b.toList 0 = b[0]?.any isDigit := by
  simp [digitAt]

/-- A scan that succeeds passes over the whole source. -/
theorem contents_of_scan_ok (hs : a.size ≤ 2 ^ 32 - 2)
    (ha : (withConfig a config).scan = .ok (.ok stored, l)) :
    stopIndex config.unknownChars a.toList = a.toList.length ∧
      l.tokens.toList = gather (tokenAt? a.toList) 0 a.toList.length ∧
      l.diagnostics.toList = gather (noticeAt? config.unknownChars a.toList) 0 a.toList.length ∧
      l.shiftBehind a = .past a.toList := by
  obtain ⟨r, m, k, hscan, hk, htokens, hdiagnostics, hcursor, hresult⟩ := scan_contents config hs
  rw [ha] at hscan
  cases hscan
  have hnone : a.toList[k]? = none := by
    split at hresult
    · assumption
    · cases hresult
  have hend : k = a.toList.length := by
    have hge := List.getElem?_eq_none_iff.mp hnone
    have hle := stopIndex_le_length config.unknownChars a.toList
    omega
  subst hend
  refine ⟨hk.symm, htokens, ?_, ?_⟩
  · rw [hdiagnostics, ← gather_append (Nat.zero_le _) (Nat.le_succ _), gather_succ,
      noticeAt?_of_none hnone]
    exact List.append_nil _
  · have hall : a.toList.take (a.toList.length + 1) = a.toList :=
      List.take_of_length_le (Nat.le_succ _)
    rw [shiftBehind, hcursor, Cursor.position_behind, hall]
    rfl

end Scans

/-- Behind a source that a scan passes over, a scan finds what it finds in the second source
alone, at places that are moved: by the bytes of the first source, by its line feeds and, on
the first line, by the columns of its last line. If the first source ends with a digit and the
second starts with one, the numbers there are one number. -/
theorem scan_append (a b : Array UInt8) (config : Config) (hs : a.size + b.size ≤ 2 ^ 32 - 2)
    {stored : Buffer Token} {l : Lexer}
    (ha : (withConfig a config).scan = .ok (.ok stored, l)) :
    ∃ result m joined n, (withConfig b config).scan = .ok (result, m) ∧
      (withConfig (a ++ b) config).scan = .ok (joined, n) ∧
      joined = (match result with
        | .ok _ => .ok n.tokens
        | .error e => .error ((l.shiftBehind a).error e)) ∧
      n.diagnostics.toList =
        l.diagnostics.toList ++ m.diagnostics.toList.map (l.shiftBehind a).diagnostic ∧
      (¬ (a.back?.any isDigit = true ∧ b[0]?.any isDigit = true) →
        n.tokens.toList = l.tokens.toList ++ m.tokens.toList.map (l.shiftBehind a).token) ∧
      (a.back?.any isDigit = true → b[0]?.any isDigit = true →
        ∃ xs t u ys, l.tokens.toList = xs ++ [t] ∧ m.tokens.toList = u :: ys ∧
          (t.kind = .numericLiteral ∧ t.span.stop = a.size) ∧
          (u.kind = .numericLiteral ∧ u.span.start = 0) ∧
          n.tokens.toList =
            xs ++ (l.shiftBehind a).fuse t u :: ys.map (l.shiftBehind a).token) := by
  have hsecond : b.size ≤ 2 ^ 32 - 2 := by omega
  have hjoined : (a ++ b).size ≤ 2 ^ 32 - 2 := by rwa [Array.size_append]
  obtain ⟨hpassed, hfirst, hnotices, hshift⟩ := contents_of_scan_ok (by omega) ha
  obtain ⟨result, m, k, hscan, hk, htokens, hdiagnostics, -, hresult⟩ :=
    scan_contents config hsecond
  obtain ⟨joined, n, k', hscan', hk', htokens', hdiagnostics', -, hresult'⟩ :=
    scan_contents config hjoined
  rw [Array.toList_append] at hk' htokens' hdiagnostics' hresult'
  have hstop : k' = a.toList.length + k := by rw [hk', stopIndex_append b.toList hpassed, hk]
  subst hstop
  refine ⟨result, m, joined, n, hscan, hscan', ?_, ?_, ?_, ?_⟩
  · rw [hshift, hresult', hresult, getElem?_length_add]
    cases b.toList[k]? with
    | none => rfl
    | some c => exact congrArg Except.error (stopAt_append_right a.toList b.toList k c)
  · rw [hdiagnostics', hnotices, hdiagnostics, hshift, Nat.add_assoc, gather_noticeAt?_append]
  · intro hseam
    rw [← digitAt_last, ← digitAt_first, ← boundary_seam_iff] at hseam
    rw [htokens', hfirst, htokens, hshift, gather_tokenAt?_append hseam]
  · intro hlast hnext
    rw [← digitAt_last] at hlast
    rw [← digitAt_first] at hnext
    rw [hfirst, htokens, htokens', hshift, ← Array.length_toList]
    exact exists_fused hlast hnext (hk ▸ digitsEnd_le_stopIndex hnext)

/-- The source `1`, line feed, `12` and behind it `3 "`, whose `3` ends the number `123`. -/
theorem scan_append_of_number_over_seam :
    ∃ stored l joined n,
      (withConfig #[0x31, 0x0A, 0x31, 0x32] .default).scan = .ok (.ok stored, l) ∧
      (withConfig (#[0x31, 0x0A, 0x31, 0x32] ++ #[0x33, 0x20, 0x22]) .default).scan =
        .ok (joined, n) ∧
      joined = .error (.unsupported .stringLiteral ⟨6, 7, 2, 5⟩) ∧
      n.tokens.toList = [⟨.numericLiteral, ⟨[0x31]⟩, ⟨0, 1, 1, 1⟩⟩,
        ⟨.numericLiteral, ⟨[0x31, 0x32, 0x33]⟩, ⟨2, 5, 2, 1⟩⟩] := by
  have hsize : (#[0x31, 0x0A, 0x31, 0x32] : Array UInt8).size ≤ 2 ^ 32 - 2 := by decide
  have hsize' : (#[0x33, 0x20, 0x22] : Array UInt8).size ≤ 2 ^ 32 - 2 := by decide
  obtain ⟨r, l, k, ha, hk, -, -, -, hr⟩ := scan_contents .default hsize
  obtain rfl : k = 4 := hk.trans (by decide)
  obtain rfl : r = .ok l.tokens := hr
  obtain ⟨-, hfirst, -, hshift⟩ := contents_of_scan_ok hsize ha
  obtain ⟨r, m, k, hb, hk, hsecond, -, -, hr⟩ := scan_contents .default hsize'
  obtain rfl : k = 2 := hk.trans (by decide)
  obtain ⟨result, m, joined, n, hscan, hjoined, hresult, -, -, hfused⟩ :=
    scan_append #[0x31, 0x0A, 0x31, 0x32] #[0x33, 0x20, 0x22] .default (by decide) ha
  rw [hb] at hscan
  cases hscan
  obtain ⟨xs, t, u, ys, hxs, hys, -, -, htokens⟩ := hfused (by decide) (by decide)
  have hone : xs ++ [t] = [⟨.numericLiteral, ⟨[0x31]⟩, ⟨0, 1, 1, 1⟩⟩] ++
      [⟨.numericLiteral, ⟨[0x31, 0x32]⟩, ⟨2, 4, 2, 1⟩⟩] :=
    (hxs.symm.trans hfirst).trans (by decide)
  have hthree : u :: ys = [⟨.numericLiteral, ⟨[0x33]⟩, ⟨0, 1, 1, 1⟩⟩] :=
    (hys.symm.trans hsecond).trans (by decide)
  obtain ⟨rfl, hlast⟩ := List.append_inj' hone rfl
  cases hlast
  cases hthree
  refine ⟨l.tokens, l, joined, n, ha, hjoined, ?_, ?_⟩
  · rw [hresult, hr, hshift]
    rfl
  · rw [htokens, hshift]
    decide

end Lexer
end ArithLexer
