import ArithLexer.Proofs.Histories
import Mathlib.Order.Bounds.Basic

/-!
# Joined spans

Joining spans is associative, and of two that start together the left one tells
the place. So the order matters in general, but not for spans of one source,
which are all placed by their starts: there the join of two stretches is a
stretch again (`join_between`). By induction over the brackets, spans of a
source join to the stretch from the least start up to the greatest stop
(`Grouping.joined_eq_between`), whatever their order and grouping.
-/

namespace ArithLexer

namespace Span

variable {text : List UInt8} {i j k l : Nat} {s : Span}

theorem join_of_le {a b : Span} (h : a.start ≤ b.start) :
    a.join b = { a with stop := max a.stop b.stop } := by
  simp [join, h, Nat.not_lt.mpr h]

theorem join_of_lt {a b : Span} (h : b.start < a.start) :
    a.join b = { b with stop := max a.stop b.stop } := by
  simp [join, h, h.le]

theorem join_assoc (a b c : Span) : (a.join b).join c = a.join (b.join c) := by
  rcases Nat.lt_or_ge b.start a.start with hba | hab
  · rcases Nat.lt_or_ge c.start b.start with hcb | hbc
    · simp [join_of_lt, hba, hcb, hcb.trans hba, Nat.max_assoc]
    · simp [join_of_lt, join_of_le, hba, hbc, Nat.max_assoc]
  · rcases Nat.lt_or_ge c.start b.start with hcb | hbc
    · rcases Nat.lt_or_ge c.start a.start with hca | hac
      · simp [join_of_lt, join_of_le, hab, hcb, hca, Nat.max_assoc]
      · simp [join_of_lt, join_of_le, hab, hcb, hac, Nat.max_assoc]
    · simp [join_of_le, hab, hbc, hab.trans hbc, Nat.max_assoc]

theorem join_self (s : Span) : s.join s = s := by
  rw [join_of_le le_rfl, Nat.max_self]

/-- A span that was joined already adds nothing on the right. -/
theorem join_join_self (a b : Span) : (a.join b).join a = a.join b := by
  have hstart : (a.join b).start ≤ a.start := Nat.min_le_left _ _
  have hstop : a.stop ≤ (a.join b).stop := Nat.le_max_left _ _
  rw [join_of_le hstart, Nat.max_eq_left hstop]

theorem start_le_stop_join {a b : Span} (ha : a.start ≤ a.stop) :
    (a.join b).start ≤ (a.join b).stop := by
  rw [join_start, join_stop]
  omega

theorem contains_join {a b : Span} {n : Nat}
    (h : a.contains n = true ∨ b.contains n = true) : (a.join b).contains n = true := by
  simp only [contains_iff, join_start, join_stop] at h ⊢
  omega

theorem Placed.eq_between (h : Placed text s) : s = between text s.start s.stop := by
  obtain ⟨start, stop, line, column⟩ := s
  have hline : line = _ := h.line_eq
  have hcolumn : column = _ := h.column_eq
  rw [hline, hcolumn]
  rfl

/-- Stretches of a text join to the stretch that covers both. -/
theorem join_between (text : List UInt8) (i j k l : Nat) :
    (between text i j).join (between text k l) = between text (min i k) (max j l) := by
  rcases Nat.lt_or_ge k i with hlt | hle
  · rw [join_of_lt hlt, Nat.min_eq_right hlt.le]
    rfl
  · rw [join_of_le hle, Nat.min_eq_left hle]
    rfl

end Span

/-- Some spans in order, in brackets. -/
inductive Grouping where
  | single (s : Span)
  | pair (left right : Grouping)
  deriving DecidableEq, Repr

namespace Grouping

variable {text : List UInt8}

/-- The spans from left to right. -/
def spans : Grouping → List Span
  | single s => [s]
  | pair left right => left.spans ++ right.spans

/-- The span that joining pair by pair leads to. -/
def joined : Grouping → Span
  | single s => s
  | pair left right => left.joined.join right.joined

/-- All brackets to the left. -/
def chain (first : Span) (rest : List Span) : Grouping :=
  rest.foldl (fun g s => pair g (single s)) (single first)

theorem joined_foldl_pair (g : Grouping) (rest : List Span) :
    (rest.foldl (fun g s => pair g (single s)) g).joined = rest.foldl Span.join g.joined := by
  induction rest generalizing g with
  | nil => rfl
  | cons s rest ih => exact ih (pair g (single s))

theorem spans_foldl_pair (g : Grouping) (rest : List Span) :
    (rest.foldl (fun g s => pair g (single s)) g).spans = g.spans ++ rest := by
  induction rest generalizing g with
  | nil => simp
  | cons s rest ih =>
    have hrest := ih (pair g (single s))
    rw [List.foldl_cons, hrest, spans, spans, List.append_assoc, List.singleton_append]

/-- Folding is one of the groupings. -/
theorem joined_chain (first : Span) (rest : List Span) :
    (chain first rest).joined = rest.foldl Span.join first := joined_foldl_pair _ rest

theorem spans_chain (first : Span) (rest : List Span) :
    (chain first rest).spans = first :: rest := spans_foldl_pair _ rest

theorem isLeast_start (g : Grouping) :
    IsLeast {n | ∃ s ∈ g.spans, s.start = n} g.joined.start := by
  induction g with
  | single s => simp [spans, joined]
  | pair left right hleft hright =>
    have hunion : {n | ∃ s ∈ (pair left right).spans, s.start = n} =
        {n | ∃ s ∈ left.spans, s.start = n} ∪ {n | ∃ s ∈ right.spans, s.start = n} := by
      ext n
      simp [spans, or_and_right, exists_or]
    rw [hunion]
    exact hleft.union hright

theorem isGreatest_stop (g : Grouping) :
    IsGreatest {n | ∃ s ∈ g.spans, s.stop = n} g.joined.stop := by
  induction g with
  | single s => simp [spans, joined]
  | pair left right hleft hright =>
    have hunion : {n | ∃ s ∈ (pair left right).spans, s.stop = n} =
        {n | ∃ s ∈ left.spans, s.stop = n} ∪ {n | ∃ s ∈ right.spans, s.stop = n} := by
      ext n
      simp [spans, or_and_right, exists_or]
    rw [hunion]
    exact hleft.union hright

/-- Stretches of a text join to a stretch, whatever the brackets. -/
theorem joined_eq_between (g : Grouping) (h : ∀ s ∈ g.spans, s.Placed text) :
    g.joined = .between text g.joined.start g.joined.stop := by
  induction g with
  | single s => exact (h s (List.mem_singleton_self s)).eq_between
  | pair left right hleft hright =>
    have hl := hleft fun s hs => h s (List.mem_append_left _ hs)
    have hr := hright fun s hs => h s (List.mem_append_right _ hs)
    rw [joined, hl, hr, Span.join_between]
    rfl

/-- Neither order nor repetition nor brackets matter to the join of stretches. -/
theorem joined_congr {g h : Grouping} (hg : ∀ s ∈ g.spans, s.Placed text)
    (hmem : ∀ s, s ∈ g.spans ↔ s ∈ h.spans) : g.joined = h.joined := by
  have hstart := h.isLeast_start
  have hstop := h.isGreatest_stop
  simp only [← hmem] at hstart hstop
  rw [g.joined_eq_between hg, h.joined_eq_between fun s hs => hg s ((hmem s).mpr hs),
    g.isLeast_start.unique hstart, g.isGreatest_stop.unique hstop]

end Grouping

namespace Lexer

/-- The spans of the tokens and diagnostics that a lexer holds, and of the tokens, diagnostics
and errors that it answered with. -/
def toldSpans (outcomes : List Outcome) (l : Lexer) : List Span :=
  (l.tokens.toList ++ outcomes.flatMap Outcome.tokens).map Token.span ++
    (l.diagnostics.toList ++ outcomes.flatMap Outcome.diagnostics).map Diagnostic.span ++
    (outcomes.flatMap Outcome.errors).map ScanError.span

/-- A span that some lexer over a source tells of, whatever its settings and history. -/
def Told (source : Array UInt8) (s : Span) : Prop :=
  ∃ config ops outcomes l, history ops (withConfig source config) = .ok (outcomes, l) ∧
    s ∈ toldSpans outcomes l

variable {source : Array UInt8} {s : Span}

theorem Told.placed (h : Told source s) : s.Placed source.toList := by
  obtain ⟨config, ops, outcomes, l, hhistory, htold⟩ := h
  have hm := (history_answers (sound_withConfig source config) ops).of_ok hhistory
  simp only [toldSpans, List.mem_append, List.mem_map, List.mem_flatMap] at htold
  rcases htold with
    (⟨t, ht | ⟨o, ho, ht⟩, rfl⟩ | ⟨d, hd | ⟨o, ho, hd⟩, rfl⟩) | ⟨e, ⟨o, ho, he⟩, rfl⟩
  · exact (hm.sound.tokens t ht).placed
  · exact ((hm.outcomes_sound o ho).tokens t ht).placed
  · exact hm.sound.diagnostics d hd
  · exact (hm.outcomes_sound o ho).diagnostics d hd
  · exact (hm.outcomes_sound o ho).errors e he

/-- Joining is associative and idempotent and covers both spans. Spans of one source join to
the same span in every order and grouping, with repetitions or without: to the stretch from the
least start up to the greatest stop. -/
theorem told_spans_join :
    (∀ a b c : Span, (a.join b).join c = a.join (b.join c) ∧ a.join a = a ∧
      (a.join b).join a = a.join b ∧
      (a.join b).start = min a.start b.start ∧ (a.join b).stop = max a.stop b.stop ∧
      (a.start ≤ a.stop → b.start ≤ b.stop → (a.join b).start ≤ (a.join b).stop) ∧
      ∀ n, a.contains n = true ∨ b.contains n = true → (a.join b).contains n = true) ∧
    ∀ source : Array UInt8,
      (∀ first rest, (∀ s ∈ first :: rest, Told source s) → ∃ whole : Span,
        rest.foldl Span.join first = whole ∧
        (∀ g : Grouping, (∀ s, s ∈ g.spans ↔ s ∈ first :: rest) → g.joined = whole) ∧
        IsLeast {n | ∃ s ∈ first :: rest, s.start = n} whole.start ∧
        IsGreatest {n | ∃ s ∈ first :: rest, s.stop = n} whole.stop ∧
        whole.line = 1 + (source.toList.take whole.start).count lineFeed ∧
        whole.column =
          1 + ((source.toList.take whole.start).rtakeWhile (· != lineFeed)).length) ∧
      ∀ a b, Told source a → Told source b → a.join b = b.join a := by
  constructor
  · intro a b c
    exact ⟨a.join_assoc b c, a.join_self, a.join_join_self b, rfl, rfl,
      fun ha _ => Span.start_le_stop_join ha, fun _ => Span.contains_join⟩
  · intro source
    constructor
    · intro first rest htold
      let whole := Grouping.chain first rest
      have hspans : whole.spans = first :: rest := Grouping.spans_chain first rest
      have hplaced : ∀ s ∈ whole.spans, s.Placed source.toList := by
        rw [hspans]
        exact fun s h => (htold s h).placed
      have hjoined := whole.joined_eq_between hplaced
      have hstart := whole.isLeast_start
      have hstop := whole.isGreatest_stop
      rw [hspans] at hstart hstop
      refine ⟨whole.joined, (Grouping.joined_chain first rest).symm, ?_, hstart, hstop,
        congrArg Span.line hjoined, congrArg Span.column hjoined⟩
      intro g hg
      rw [← hspans] at hg
      exact (Grouping.joined_congr hplaced fun s => (hg s).symm).symm
    · intro a b ha hb
      have hplaced : ∀ s ∈ (Grouping.pair (.single a) (.single b)).spans,
          s.Placed source.toList := by
        simpa [Grouping.spans] using ⟨ha.placed, hb.placed⟩
      apply Grouping.joined_congr (h := .pair (.single b) (.single a)) hplaced
      intro s
      simp [Grouping.spans, or_comm]

/-- The source `1`, a line feed, `@` and `+` under the policy that reports. -/
theorem told_spans_join_on_two_lines :
    (∀ s ∈ [(⟨3, 4, 2, 2⟩ : Span), ⟨2, 3, 2, 1⟩, ⟨0, 1, 1, 1⟩],
      Told #[0x31, 0x0A, 0x40, 0x2B] s) ∧
    (∀ g : Grouping,
      (∀ s, s ∈ g.spans ↔ s ∈ [(⟨3, 4, 2, 2⟩ : Span), ⟨2, 3, 2, 1⟩, ⟨0, 1, 1, 1⟩]) →
      g.joined = ⟨0, 4, 1, 1⟩) ∧
    Span.join ⟨3, 4, 2, 2⟩ ⟨2, 3, 2, 1⟩ = Span.join ⟨2, 3, 2, 1⟩ ⟨3, 4, 2, 2⟩ := by
  have hpulls : (history [.nextToken, .nextToken, .takeDiagnostics]
      (withConfig #[0x31, 0x0A, 0x40, 0x2B] ⟨.report, 4⟩)).map (fun r => toldSpans r.1 r.2) =
        .ok [⟨0, 1, 1, 1⟩, ⟨3, 4, 2, 2⟩, ⟨2, 3, 2, 1⟩] := by
    decide +kernel
  have htold : ∀ s ∈ [(⟨3, 4, 2, 2⟩ : Span), ⟨2, 3, 2, 1⟩, ⟨0, 1, 1, 1⟩],
      Told #[0x31, 0x0A, 0x40, 0x2B] s := by
    intro s hs
    cases hhistory : history [.nextToken, .nextToken, .takeDiagnostics]
        (withConfig #[0x31, 0x0A, 0x40, 0x2B] ⟨.report, 4⟩) with
    | error fault => rw [hhistory] at hpulls; cases hpulls
    | ok answer =>
      rw [hhistory] at hpulls
      have hspans : toldSpans answer.1 answer.2 = _ := Except.ok.inj hpulls
      refine ⟨_, _, _, _, hhistory, ?_⟩
      rw [hspans]
      simp only [List.mem_cons] at hs ⊢
      tauto
  obtain ⟨hjoins, hcomm⟩ := told_spans_join.2 #[0x31, 0x0A, 0x40, 0x2B]
  obtain ⟨whole, hwhole, hgroupings, -⟩ := hjoins _ _ htold
  refine ⟨htold, ?_, hcomm _ _ (htold _ (by simp)) (htold _ (by simp))⟩
  intro g hg
  rw [hgroupings g hg, ← hwhole]
  decide

end Lexer
end ArithLexer
