import ArithLexer.Proofs.Agreement

/-!
# Scanning again

A scan starts over, so what a lexer did before shows only in what it has
collected: the scan appends to it what the scan of a fresh lexer finds
(`scan_appends`), each time anew (`scans_append`). A lexer that was released
agrees with a fresh one from there on (`agree_release`).
-/

namespace ArithLexer
namespace Lexer

section Scans

variable {source : Array UInt8} {l l₀ m₀ : Lexer}
  {r₀ : Except ScanError (Buffer Token)}

/-- A scan appends what the scan of a lexer that holds nothing finds, and ends as it does. -/
theorem scan_appends (hc : ∀ n, Position.Countable source.toList n) (hl : Sound source l)
    (hconfig : l.config = l₀.config) (h₀ : Scanned source l₀ r₀ m₀)
    (htokens : l₀.tokens.toList = []) (hdiagnostics : l₀.diagnostics.toList = []) :
    ∃ r m, l.scan = .ok (r, m) ∧ Sound source m ∧ m.config = l.config ∧
      (∀ e, r = .error e ↔ r₀ = .error e) ∧ (∀ tokens, r = .ok tokens → tokens = m.tokens) ∧
      m.tokens.toList = l.tokens.toList ++ m₀.tokens.toList ∧
      m.diagnostics.toList = l.diagnostics.toList ++ m₀.diagnostics.toList ∧
      m.cursor = m₀.cursor := by
  obtain ⟨r, m, hscan, hsound, hm⟩ := scan_scanned hc hl
  have hresult := hm.result_eq rfl
  have hresult₀ := h₀.result_eq rfl
  rw [← hconfig] at hresult₀
  refine ⟨r, m, hscan, hsound, hm.config_eq, ?_, ?_, ?_, ?_, ?_⟩
  · intro e
    rw [hresult, hresult₀]
    split <;> simp
  · intro tokens h
    rw [hresult] at h
    split at h <;> cases h
    rfl
  · rw [hm.tokens_eq, h₀.tokens_eq, Buffer.toList_extend, Buffer.toList_extend, htokens, hconfig,
      List.nil_append]
  · rw [hm.notices_eq rfl, h₀.notices_eq rfl, hdiagnostics, hconfig, List.nil_append]
  · rw [hm.cursor_eq, h₀.cursor_eq, hconfig]

/-- Scanning a number of times appends the same that number of times. -/
theorem scans_append (hc : ∀ n, Position.Countable source.toList n) (hl : Sound source l)
    (hconfig : l.config = l₀.config) (h₀ : Scanned source l₀ r₀ m₀)
    (htokens : l₀.tokens.toList = []) (hdiagnostics : l₀.diagnostics.toList = []) (n : Nat) :
    ∃ outcomes m, history (List.replicate n .scan) l = .ok (outcomes, m) ∧
      m.tokens.toList = l.tokens.toList ++ (List.replicate n m₀.tokens.toList).flatten ∧
      m.diagnostics.toList =
        l.diagnostics.toList ++ (List.replicate n m₀.diagnostics.toList).flatten := by
  induction n generalizing l with
  | zero => exact ⟨[], l, rfl, by simp, by simp⟩
  | succ n ih =>
    obtain ⟨r, m, hscan, hm, hmc, -, -, hts, hds, -⟩ :=
      scan_appends hc hl hconfig h₀ htokens hdiagnostics
    obtain ⟨outcomes, k, hhistory, hks, hkd⟩ := ih hm (hmc.trans hconfig)
    have hperform : l.perform .scan = .ok (.scanned r, m) := by
      rw [perform, hscan]
      rfl
    refine ⟨_, k, history_cons hperform hhistory, ?_, ?_⟩
    · rw [hks, hts, List.replicate_succ, List.flatten_cons, List.append_assoc]
    · rw [hkd, hds, List.replicate_succ, List.flatten_cons, List.append_assoc]

/-- A lexer that was released cannot be told from a fresh one. -/
theorem agree_release {config : Config} (hl : Sound source l) (hconfig : l.config = config) :
    Agree source True l.release (withConfig source config) where
  left := sound_release hl
  right := sound_withConfig source config
  cursor := by
    change Cursor.new l.cursor.source = .new source
    rw [hl.source_eq]
  halted := rfl
  tokens := (Buffer.toList_withCapacity _).symm
  stops := congrArg (·.unknownChars.stops) hconfig
  policy _ := congrArg Config.unknownChars hconfig
  diagnostics _ := rfl

/-- A scan depends on the source and the settings only. Whatever was done to a lexer, the scan
returns what that of a fresh lexer returns, appends the same tokens and diagnostics and ends at
the same place, and does so each time. A lexer that is released is empty and at the start, and
from there on answers and collects as a fresh one does, the capacity of its buffer apart. -/
theorem scan_forgets_history (source : Array UInt8) (config : Config)
    (hs : source.size ≤ 2 ^ 32 - 2) (before after : List Operation) (n : Nat) :
    ∃ earlier l r₀ m₀, history before (withConfig source config) = .ok (earlier, l) ∧
      (withConfig source config).scan = .ok (r₀, m₀) ∧
      (∃ r m, l.scan = .ok (r, m) ∧ (∀ e, r = .error e ↔ r₀ = .error e) ∧
        (∀ tokens, r = .ok tokens → tokens = m.tokens) ∧
        m.tokens.toList = l.tokens.toList ++ m₀.tokens.toList ∧
        m.diagnostics.toList = l.diagnostics.toList ++ m₀.diagnostics.toList ∧
        m.cursor = m₀.cursor) ∧
      (∃ outcomes m, history (List.replicate n .scan) l = .ok (outcomes, m) ∧
        m.tokens.toList = l.tokens.toList ++ (List.replicate n m₀.tokens.toList).flatten ∧
        m.diagnostics.toList =
          l.diagnostics.toList ++ (List.replicate n m₀.diagnostics.toList).flatten) ∧
      (l.release.tokens = ⟨#[], 0⟩ ∧ l.release.diagnostics.toList = [] ∧
        l.release.cursor.position = ⟨0, 1, 1⟩) ∧
      ∃ xs x ys y, history after l.release = .ok (xs, x) ∧
        history after (withConfig source config) = .ok (ys, y) ∧
        xs.map Outcome.bare = ys.map Outcome.bare ∧ x.tokens.toList = y.tokens.toList ∧
        x.diagnostics.toList = y.diagnostics.toList ∧ x.cursor = y.cursor := by
  have hc := countable_of_size_le hs
  have hfresh := sound_withConfig source config
  obtain ⟨earlier, l, hbefore, hl⟩ := (history_answers hfresh before).exists_ok hc
  obtain ⟨r₀, m₀, hscan₀, h₀⟩ := scan_withConfig config hs
  have hempty : (withConfig source config).tokens.toList = [] := Buffer.toList_withCapacity _
  obtain ⟨r, m, hscan, -, -, hresult, hok, htokens, hdiagnostics, hcursor⟩ :=
    scan_appends hc hl.sound hl.config_eq h₀ hempty rfl
  obtain ⟨xs, x, ys, y, hx, hy, hbare, hagree⟩ :=
    history_agree hc (agree_release hl.sound hl.config_eq) after fun _ => trivial
  exact ⟨earlier, l, r₀, m₀, hbefore, hscan₀,
    ⟨r, m, hscan, hresult, hok, htokens, hdiagnostics, hcursor⟩,
    scans_append hc hl.sound hl.config_eq h₀ hempty rfl n, ⟨rfl, rfl, rfl⟩,
    xs, x, ys, y, hx, hy, hbare, hagree.tokens, hagree.diagnostics trivial, hagree.cursor⟩

theorem scan_forgets_history_behind_error :
    ∃ earlier l r₀ m₀, history [.scan, .nextToken, .scanLexeme]
        (withConfig #[0x31, 0x40, 0x22, 0x32] ⟨.report, 4⟩) = .ok (earlier, l) ∧
      (withConfig #[0x31, 0x40, 0x22, 0x32] ⟨.report, 4⟩).scan = .ok (r₀, m₀) ∧
      (∃ r m, l.scan = .ok (r, m) ∧ m.tokens.toList = l.tokens.toList ++ m₀.tokens.toList ∧
        m.diagnostics.toList = l.diagnostics.toList ++ m₀.diagnostics.toList) ∧
      ∃ xs x ys y, history [.iterate 2, .takeDiagnostics, .scan] l.release = .ok (xs, x) ∧
        history [.iterate 2, .takeDiagnostics, .scan]
          (withConfig #[0x31, 0x40, 0x22, 0x32] ⟨.report, 4⟩) = .ok (ys, y) ∧
        xs.map Outcome.bare = ys.map Outcome.bare := by
  obtain ⟨earlier, l, r₀, m₀, hbefore, hscan₀, ⟨r, m, hscan, -, -, htokens, hdiagnostics, -⟩,
      -, -, xs, x, ys, y, hx, hy, hbare, -⟩ :=
    scan_forgets_history #[0x31, 0x40, 0x22, 0x32] ⟨.report, 4⟩ (by decide)
      [.scan, .nextToken, .scanLexeme] [.iterate 2, .takeDiagnostics, .scan] 3
  exact ⟨earlier, l, r₀, m₀, hbefore, hscan₀, ⟨r, m, hscan, htokens, hdiagnostics⟩,
    xs, x, ys, y, hx, hy, hbare⟩

end Scans

end Lexer
end ArithLexer
