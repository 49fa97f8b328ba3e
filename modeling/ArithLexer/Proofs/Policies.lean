import ArithLexer.Proofs.Agreement

/-!
# Policies for foreign bytes

Passing over foreign bytes and reporting them stop at the same bytes, so lexers
with these settings agree whatever they are asked. Rejecting stops at the first
byte that reporting tells of: its error is over the place of the first
diagnostic (`noticeAt?_report`), and its tokens are those that end before it
(`filter_gather_tokenAt?`).
-/

namespace ArithLexer

section Stops

variable {text : List UInt8} {i k n : Nat} {b : UInt8} {t : Token}

theorem stops_skip_eq_stops_report : Policy.skip.stops = Policy.report.stops := by
  funext b
  rfl

theorem stopIndex_reject_le (text : List UInt8) :
    stopIndex .reject text ≤ stopIndex .report text := by
  refine List.findIdx_le_findIdx fun b _ hb => ?_
  have hq : b = quoteByte := by simpa [Policy.stops] using hb
  simp [Policy.stops, hq]

/-- Reporting tells of exactly the bytes at which rejecting stops, and of the same error. -/
theorem noticeAt?_report (hb : text[i]? = some b) :
    noticeAt? .report text i =
      if Policy.reject.stops b then some (stopAt text i b).diagnostic else none := by
  by_cases hq : b = quoteByte
  · subst b
    simp [noticeAt?, hb, Policy.stops]
  · rw [noticeAt?_of_ne (by simp [hb, hq]), stopAt, if_neg hq]
    by_cases hf : isForeign b = true
    · simp [reportAt?, hb, Option.filter, Policy.stops, hf]
    · simp [reportAt?, hb, Option.filter, Policy.stops, hf, hq]

/-- Before the byte at which rejecting stops nothing is told. -/
theorem gather_noticeAt?_report (hk : k ≤ stopIndex .reject text) :
    gather (noticeAt? .report text) 0 k = [] := by
  refine gather_eq_nil fun i _ hik => ?_
  cases hb : text[i]? with
  | none => exact noticeAt?_of_none hb
  | some b =>
    have hs : Policy.reject.stops b = false := by
      refine not_of_lt_firstFrom (Nat.zero_le i) ?_ hb
      rw [firstFrom_zero]
      exact lt_of_lt_of_le hik hk
    simp [noticeAt?_report hb, hs]

/-- A token that starts before a byte that is no digit ends there at the latest. -/
theorem TokenOf.stop_le (ht : TokenOf text t) (hk : digitAt text k = false)
    (hlt : t.span.start < k) : t.span.stop ≤ k := by
  cases ht with
  | @number i j hrun =>
    by_contra hjk
    simp only [Token.between, Span.start_between, Span.stop_between] at hlt hjk
    have hd := hrun.digits k hlt.le (by omega)
    rw [hk] at hd
    cases hd
  | single hb hkind => exact hlt

theorem filter_gather_tokenAt? (hk : digitAt text k = false) (hkn : k ≤ n) :
    (gather (tokenAt? text) 0 n).filter (fun t => t.span.stop ≤ k) =
      gather (tokenAt? text) 0 k := by
  have hbefore : (gather (tokenAt? text) 0 k).filter (fun t => t.span.stop ≤ k) =
      gather (tokenAt? text) 0 k := by
    refine List.filter_eq_self.mpr fun t ht => ?_
    obtain ⟨hof, -, hlt⟩ := mem_gather_tokenAt?.mp ht
    exact decide_eq_true (hof.stop_le hk hlt)
  have hbehind : (gather (tokenAt? text) k n).filter (fun t => t.span.stop ≤ k) = [] := by
    refine List.filter_eq_nil_iff.mpr fun t ht => ?_
    obtain ⟨hof, hle, -⟩ := mem_gather_tokenAt?.mp ht
    have hlt := hof.placed.start_lt_stop
    simp only [decide_eq_true_eq]
    omega
  rw [← gather_append (Nat.zero_le k) hkn, List.filter_append, hbefore, hbehind, List.append_nil]

end Stops

namespace Lexer

section Policies

variable {source : Array UInt8}

/-- Fresh lexers that pass over foreign bytes and that report them agree. -/
theorem agree_skip_report (source : Array UInt8) (c d : Nat) :
    Agree source False (withConfig source ⟨.skip, c⟩) (withConfig source ⟨.report, d⟩) where
  left := sound_withConfig source _
  right := sound_withConfig source _
  cursor := rfl
  halted := rfl
  tokens := (Buffer.toList_withCapacity _).trans (Buffer.toList_withCapacity _).symm
  stops := stops_skip_eq_stops_report
  policy := False.elim
  diagnostics := False.elim

/-- A scan that rejects foreign bytes, beside one that reports them. -/
theorem reject_beside_report (hs : source.size ≤ 2 ^ 32 - 2) (c d : Nat) :
    ∃ r l r' m, (withConfig source ⟨.reject, c⟩).scan = .ok (r, l) ∧
      (withConfig source ⟨.report, d⟩).scan = .ok (r', m) ∧
      ((∃ tokens, r = .ok tokens) ∧ (∃ tokens, r' = .ok tokens) ∧ m.diagnostics.toList = [] ∧
          l.tokens.toList = m.tokens.toList ∨
        ∃ k b rest, source.toList[k]? = some b ∧ r = .error (stopAt source.toList k b) ∧
          m.diagnostics.toList = (stopAt source.toList k b).diagnostic :: rest ∧
          l.tokens.toList = m.tokens.toList.filter fun t => t.span.stop ≤ k) := by
  obtain ⟨r, l, k, hscan, hk, htokens, -, -, hresult⟩ := scan_contents ⟨.reject, c⟩ hs
  obtain ⟨r', m, n, hscan', hn, htokens', hdiagnostics, -, hresult'⟩ :=
    scan_contents ⟨.report, d⟩ hs
  dsimp only at hk hn hdiagnostics
  have hkn : k ≤ n := by
    rw [hk, hn]
    exact stopIndex_reject_le _
  have hbefore : gather (noticeAt? .report source.toList) 0 k = [] :=
    gather_noticeAt?_report hk.le
  refine ⟨r, l, r', m, hscan, hscan', ?_⟩
  cases hb : source.toList[k]? with
  | none =>
    have hend : n = k := by
      have hlength := stopIndex_le_length .report source.toList
      rw [List.getElem?_eq_none_iff] at hb
      omega
    subst hend
    rw [hb] at hresult hresult'
    refine .inl ⟨⟨_, hresult⟩, ⟨_, hresult'⟩, ?_, htokens.trans htokens'.symm⟩
    rw [hdiagnostics, ← gather_append (Nat.zero_le n) (Nat.le_succ n), hbefore, gather_succ,
      noticeAt?_of_none hb]
    rfl
  | some b =>
    have hstops : Policy.reject.stops b = true := by
      rw [hk, ← firstFrom_eq_stopIndex] at hb
      exact of_getElem?_firstFrom hb
    have hnotice := noticeAt?_report hb
    rw [if_pos hstops] at hnotice
    have hdigit : digitAt source.toList k = false := hk ▸ not_digitAt_stopIndex _ _
    rw [hb] at hresult
    refine .inr ⟨k, b, gather (noticeAt? .report source.toList) (k + 1) (n + 1), hb, hresult,
      ?_, ?_⟩
    · rw [hdiagnostics, ← gather_append (Nat.zero_le k) (by omega), hbefore, List.nil_append,
        ← gather_append (Nat.le_succ k) (by omega), gather_succ, hnotice]
      rfl
    · rw [htokens, htokens', filter_gather_tokenAt? hdigit hkn]

/-- Whatever lexers that pass over and that report foreign bytes are asked, they give the same
answers and hold the same tokens at the same place. A scan that rejects foreign bytes succeeds
if one that reports them succeeds with nothing to report; else its error is over the place of
the first diagnostic, and of the kind that the code there tells, and its tokens are those of the
other scan that end before that place. -/
theorem policies_agree (source : Array UInt8) (hs : source.size ≤ 2 ^ 32 - 2) (c d : Nat)
    (ops : List Operation) (hops : ∀ op ∈ ops, op ≠ .takeDiagnostics) :
    (∃ xs l ys m, history ops (withConfig source ⟨.skip, c⟩) = .ok (xs, l) ∧
      history ops (withConfig source ⟨.report, d⟩) = .ok (ys, m) ∧
      xs.map Outcome.bare = ys.map Outcome.bare ∧ l.tokens.toList = m.tokens.toList ∧
      l.cursor.position = m.cursor.position) ∧
    ∃ r l r' m, (withConfig source ⟨.reject, c⟩).scan = .ok (r, l) ∧
      (withConfig source ⟨.report, d⟩).scan = .ok (r', m) ∧
      ((∃ tokens, r = .ok tokens) ↔
        (∃ tokens, r' = .ok tokens) ∧ m.diagnostics.toList = []) ∧
      ((∃ tokens, r = .ok tokens) → l.tokens.toList = m.tokens.toList) ∧
      ∀ e, r = .error e → ∃ first rest, m.diagnostics.toList = first :: rest ∧
        e.span = first.span ∧
        ((first.code = some .unexpectedCharacter ∧
            ∃ character, e = .unexpectedCharacter character first.span) ∨
          (first.code = some .unsupported ∧ e = .unsupported .stringLiteral first.span)) ∧
        l.tokens.toList = m.tokens.toList.filter fun t => t.span.stop ≤ first.span.start := by
  refine ⟨?_, ?_⟩
  · obtain ⟨xs, l, ys, m, hl, hm, hbare, hagree⟩ :=
      history_agree (countable_of_size_le hs) (agree_skip_report source c d) ops
        fun hmem => hops _ hmem rfl
    exact ⟨xs, l, ys, m, hl, hm, hbare, hagree.tokens,
      congrArg Cursor.position hagree.cursor⟩
  · obtain ⟨r, l, r', m, hl, hm, h⟩ := reject_beside_report hs c d
    refine ⟨r, l, r', m, hl, hm, ?_⟩
    rcases h with ⟨⟨tokens, rfl⟩, hok', hnil, htokens⟩ | ⟨k, b, rest, hb, rfl, hcons, htokens⟩
    · refine ⟨by simp [hok', hnil], fun _ => htokens, fun e he => ?_⟩
      cases he
    · refine ⟨by simp [hcons], (fun h => by obtain ⟨_, h⟩ := h; cases h), fun e he => ?_⟩
      cases he
      refine ⟨_, rest, hcons, rfl, ?_, ?_⟩
      · by_cases hq : b = quoteByte
        · rw [stopAt, if_pos hq]
          exact .inr ⟨rfl, rfl⟩
        · rw [stopAt, if_neg hq]
          exact .inl ⟨rfl, _, rfl⟩
      · rw [htokens, ScanError.diagnostic, Diagnostic.withCode, span_stopAt]
        rfl

/-- The source `1@2"` and a history that scans, pulls and reads on behind the error. -/
theorem policies_agree_up_to_foreign :
    (∃ xs l ys m, history [.scan, .scanLexeme, .release, .iterate 3]
        (withConfig #[0x31, 0x40, 0x32, 0x22] ⟨.skip, 4⟩) = .ok (xs, l) ∧
      history [.scan, .scanLexeme, .release, .iterate 3]
        (withConfig #[0x31, 0x40, 0x32, 0x22] ⟨.report, 20⟩) = .ok (ys, m) ∧
      xs.map Outcome.bare = ys.map Outcome.bare) ∧
    ∃ l r' m first rest, (withConfig #[0x31, 0x40, 0x32, 0x22] ⟨.reject, 4⟩).scan =
        .ok (.error (.unexpectedCharacter '@' ⟨1, 2, 1, 2⟩), l) ∧
      (withConfig #[0x31, 0x40, 0x32, 0x22] ⟨.report, 20⟩).scan = .ok (r', m) ∧
      m.diagnostics.toList = first :: rest ∧ first.span = ⟨1, 2, 1, 2⟩ ∧
      l.tokens.toList = m.tokens.toList.filter fun t => t.span.stop ≤ 1 := by
  have hsize : (#[0x31, 0x40, 0x32, 0x22] : Array UInt8).size ≤ 2 ^ 32 - 2 := by decide
  obtain ⟨⟨xs, l, ys, m, hxs, hys, hbare, -⟩, r, l', r', m', hr, hr', -, -, herror⟩ :=
    policies_agree #[0x31, 0x40, 0x32, 0x22] hsize 4 20
      [.scan, .scanLexeme, .release, .iterate 3] (by decide)
  refine ⟨⟨xs, l, ys, m, hxs, hys, hbare⟩, ?_⟩
  obtain ⟨r'', l'', k, hscan, hk, -, -, -, hresult⟩ := scan_contents ⟨.reject, 4⟩ hsize
  obtain rfl : k = 1 := hk.trans (by decide)
  rw [hr] at hscan
  cases hscan
  obtain ⟨first, rest, hfirst, hspan, -, htokens⟩ := herror _ hresult
  have hplace : first.span = ⟨1, 2, 1, 2⟩ := hspan.symm
  rw [hplace] at htokens
  exact ⟨l', r', m', first, rest, hr.trans (by rw [hresult]; rfl), hr', hfirst, hplace, htokens⟩

end Policies

end Lexer
end ArithLexer
