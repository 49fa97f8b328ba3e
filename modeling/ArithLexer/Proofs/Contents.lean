import ArithLexer.Lexer.Event
import ArithLexer.Lexer.Error
import ArithLexer.Diagnostic.Basic
import ArithLexer.Proofs.Lexemes
import Mathlib.Data.List.Intervals
import Mathlib.Data.List.Pairwise

/-!
# Contents of a text

What a text holds is told offset by offset, without reading it: the token that
starts there, the diagnostic and the log event that the byte there leads to. A
stretch of text holds what its offsets hold, in order (`gather`), and holds
nothing more at the further offsets of a lexeme (`gather_lexemeEnd`).

`TokenOf` says which tokens a text has: its maximal runs of digits and its
operators and parentheses. `Tokenizes` makes a list of them.
-/

namespace ArithLexer

/-- What the offsets of a stretch hold, in order. -/
def gather {α : Type} (f : Nat → Option α) (p q : Nat) : List α := (List.Ico p q).filterMap f

section Gather

variable {α : Type} {f : Nat → Option α} {p q r : Nat}

@[simp] theorem gather_self : gather f p p = [] := by simp [gather]

theorem gather_append (hpq : p ≤ q) (hqr : q ≤ r) :
    gather f p q ++ gather f q r = gather f p r := by
  rw [gather, gather, ← List.filterMap_append, List.Ico.append_consecutive hpq hqr, gather]

theorem mem_gather {a : α} : a ∈ gather f p q ↔ ∃ i, (p ≤ i ∧ i < q) ∧ f i = some a := by
  simp [gather, List.mem_filterMap]

theorem gather_eq_nil (h : ∀ i, p ≤ i → i < q → f i = none) : gather f p q = [] := by
  rw [gather, List.filterMap_eq_nil_iff]
  intro i hi
  rw [List.Ico.mem] at hi
  exact h i hi.1 hi.2

theorem gather_first (hpq : p < q) (h : ∀ i, p < i → i < q → f i = none) :
    gather f p q = (f p).toList := by
  have hrest : gather f (p + 1) q = [] := gather_eq_nil fun i hi => h i hi
  rw [← gather_append (Nat.le_succ p) hpq, hrest, gather, List.Ico.succ_singleton]
  cases hp : f p <;> simp [hp]

theorem gather_succ (f : Nat → Option α) (p : Nat) : gather f p (p + 1) = (f p).toList :=
  gather_first (Nat.lt_succ_self p) fun i _ _ => by omega

theorem gather_congr {g : Nat → Option α} (h : ∀ i, p ≤ i → i < q → f i = g i) :
    gather f p q = gather g p q := by
  refine List.filterMap_congr fun i hi => ?_
  rw [List.Ico.mem] at hi
  exact h i hi.1 hi.2

theorem gather_zero (f : Nat → Option α) (q : Nat) : gather f 0 q = (List.range q).filterMap f := by
  rw [gather, List.Ico.zero_bot]

end Gather

/-! ### Tokens -/

/-- A stretch of one byte. -/
theorem extract_succ {text : List UInt8} {i : Nat} {b : UInt8} (hb : text[i]? = some b) :
    text.extract i (i + 1) = [b] := by
  obtain ⟨hlt, hb⟩ := List.getElem?_eq_some_iff.mp hb
  simp [List.drop_eq_getElem_cons hlt, hb]

/-- The token of a kind whose text is a stretch of the source. -/
def Token.between (text : List UInt8) (kind : TokenKind) (i j : Nat) : Token :=
  ⟨kind, ⟨text.extract i j⟩, .between text i j⟩

/-- The tokens of a text: a number for every run of digits that is as long as possible, and
a token of its own for every byte that spells a kind. -/
inductive TokenOf (text : List UInt8) : Token → Prop
  | number {i j : Nat} : DigitRun text i j → TokenOf text (.between text .numericLiteral i j)
  | single {i : Nat} {b : UInt8} {kind : TokenKind} : text[i]? = some b →
      TokenKind.ofByte? b = some kind → TokenOf text (.between text kind i (i + 1))

/-- The token that starts at an offset. -/
def tokenAt? (text : List UInt8) (i : Nat) : Option Token :=
  if digitAt text i then
    if Boundary text i then some (.between text .numericLiteral i (digitsEnd text i)) else none
  else (text[i]?.bind TokenKind.ofByte?).map fun kind => .between text kind i (i + 1)

section Tokens

variable {text : List UInt8} {t u : Token} {i : Nat} {b : UInt8}

theorem tokenAt?_of_isDigit (hb : text[i]? = some b) (hd : isDigit b = true)
    (hi : Boundary text i) :
    tokenAt? text i = some (.between text .numericLiteral i (digitsEnd text i)) := by
  rw [tokenAt?, digitAt_of_getElem? hb, if_pos hd, if_pos hi]

theorem tokenAt?_of_not_isDigit (hb : text[i]? = some b) (hd : isDigit b = false) :
    tokenAt? text i =
      (TokenKind.ofByte? b).map fun kind => Token.between text kind i (i + 1) := by
  rw [tokenAt?, digitAt_of_getElem? hb, hd, hb]
  rfl

theorem tokenAt?_eq_some_iff :
    tokenAt? text i = some t ↔ TokenOf text t ∧ t.span.start = i := by
  constructor
  · intro h
    unfold tokenAt? at h
    split_ifs at h with hd hb
    · cases h
      exact ⟨.number (digitRun_digitsEnd hd hb), rfl⟩
    · obtain ⟨kind, hkind, rfl⟩ := Option.map_eq_some_iff.mp h
      obtain ⟨b, hb, hkind⟩ := Option.bind_eq_some_iff.mp hkind
      exact ⟨.single hb hkind, rfl⟩
  · rintro ⟨ht, rfl⟩
    cases ht with
    | @number i j hrun =>
      have hi : Boundary text i := hrun.boundary
      have hend := hrun.stop_eq
      subst j
      simp [tokenAt?, Token.between, hrun.digitAt_start, hi]
    | @single i b kind hb hkind =>
      have hd := (not_isDigit_of_ofByte? hkind).1
      exact (tokenAt?_of_not_isDigit hb hd).trans (by rw [hkind]; rfl)

/-- A token ends where the lexeme at its start does. -/
theorem stop_of_tokenAt? (ht : tokenAt? text i = some t) : t.span.stop = lexemeEnd text i := by
  unfold tokenAt? at ht
  split_ifs at ht with hd hb
  · cases ht
    rw [lexemeEnd, if_pos hd]
    rfl
  · obtain ⟨kind, _, rfl⟩ := Option.map_eq_some_iff.mp ht
    rw [lexemeEnd, if_neg hd]
    rfl

theorem TokenOf.placed (ht : TokenOf text t) : t.span.Placed text := by
  cases ht with
  | number hrun => exact Span.placed_between hrun.start_lt_stop hrun.stop_le_length
  | single hb hkind => exact Span.placed_byte hb

theorem TokenOf.bytes_eq (ht : TokenOf text t) :
    t.lexeme.bytes = text.extract t.span.start t.span.stop := by
  cases ht <;> rfl

theorem TokenOf.kind_ne (ht : TokenOf text t) : t.kind ≠ .stringLiteral := by
  cases ht with
  | number hrun => simp [Token.between]
  | @single i b kind hb hkind =>
    intro h
    rw [show kind = .stringLiteral from h] at hkind
    unfold TokenKind.ofByte? at hkind
    split_ifs at hkind <;> cases hkind

/-- Of two tokens the one that starts first ends before the other starts. -/
theorem TokenOf.stop_le_start (ht : TokenOf text t) (hu : TokenOf text u)
    (h : t.span.start < u.span.start) : t.span.stop ≤ u.span.start := by
  cases ht with
  | single hb hkind => exact h
  | @number i j hrun =>
    by_contra hlt
    simp only [Token.between, Span.start_between, Span.stop_between] at h hlt
    -- then `u` starts inside the run, behind one digit and with another
    have hdigit := hrun.digits u.span.start (by omega) (by omega)
    have hprev := hrun.digits (u.span.start - 1) (by omega) (by omega)
    cases hu with
    | number hrun' =>
      simp only [Token.between, Span.start_between] at h
      exact hrun'.boundary ⟨by omega, hprev, hdigit⟩
    | single hb hkind =>
      have hd := digitAt_of_getElem? hb
      rw [(not_isDigit_of_ofByte? hkind).1] at hd
      exact absurd (hd.symm.trans hdigit) (by simp)

theorem exists_tokenOf (hb : text[i]? = some b)
    (h : isDigit b = true ∨ (TokenKind.ofByte? b).isSome = true) :
    ∃ t, TokenOf text t ∧ t.span.contains i = true := by
  rcases h with hd | hkind
  · rw [← digitAt_of_getElem? hb] at hd
    obtain ⟨n, m, hrun, hn, hm⟩ := exists_digitRun hd
    exact ⟨_, .number hrun, by simp [Token.between, hn, hm]⟩
  · obtain ⟨kind, hkind⟩ := Option.isSome_iff_exists.mp hkind
    exact ⟨_, .single hb hkind, by simp [Token.between]⟩

theorem mem_gather_tokenAt? {p q : Nat} :
    t ∈ gather (tokenAt? text) p q ↔ TokenOf text t ∧ p ≤ t.span.start ∧ t.span.start < q := by
  rw [mem_gather]
  constructor
  · rintro ⟨i, hi, hat⟩
    obtain ⟨ht, rfl⟩ := tokenAt?_eq_some_iff.mp hat
    exact ⟨ht, hi⟩
  · rintro ⟨ht, hi⟩
    exact ⟨_, hi, tokenAt?_eq_some_iff.mpr ⟨ht, rfl⟩⟩

theorem of_gather_eq_singleton {p q : Nat} (h : gather (tokenAt? text) p q = [t]) :
    TokenOf text t ∧ p ≤ t.span.start := by
  have hmem : t ∈ gather (tokenAt? text) p q := by
    rw [h]
    exact List.mem_singleton_self t
  obtain ⟨ht, hstart, _⟩ := mem_gather_tokenAt?.mp hmem
  exact ⟨ht, hstart⟩

theorem increasing_gather_tokenAt? (p q : Nat) :
    (gather (tokenAt? text) p q).Pairwise fun t u => t.span.start < u.span.start := by
  rw [gather, List.pairwise_filterMap]
  refine (List.Ico.pairwise_lt p q).imp fun hij t ht u hu => ?_
  rw [(tokenAt?_eq_some_iff.mp ht).2, (tokenAt?_eq_some_iff.mp hu).2]
  exact hij

/-- A list that holds the tokens of a text, each once and in order. -/
structure Tokenizes (text : List UInt8) (tokens : List Token) : Prop where
  mem_iff : ∀ t, t ∈ tokens ↔ TokenOf text t
  increasing : tokens.Pairwise fun t u => t.span.start < u.span.start

namespace Tokenizes

variable {xs ys : List Token}

theorem disjoint (h : Tokenizes text xs) :
    xs.Pairwise fun t u => t.span.stop ≤ u.span.start := by
  refine h.increasing.imp_of_mem fun ht hu hlt => ?_
  exact ((h.mem_iff _).mp ht).stop_le_start ((h.mem_iff _).mp hu) hlt

theorem nodup (h : Tokenizes text xs) : xs.Nodup := by
  refine h.increasing.imp fun {t u} hlt heq => ?_
  rw [heq] at hlt
  exact Nat.lt_irrefl _ hlt

/-- A text has only one such list. -/
theorem unique (hx : Tokenizes text xs) (hy : Tokenizes text ys) : xs = ys := by
  have hperm : xs.Perm ys := by
    rw [List.perm_ext_iff_of_nodup hx.nodup hy.nodup]
    intro t
    rw [hx.mem_iff, hy.mem_iff]
  refine hperm.eq_of_pairwise ?_ hx.increasing hy.increasing
  intro t u _ _ htu hut
  omega

end Tokenizes

/-! ### Texts that end where no number goes on -/

section Take

variable {k : Nat}

theorem digitAt_take (n : Nat) :
    digitAt (text.take k) n = (decide (n < k) && digitAt text n) := by
  unfold digitAt
  rw [List.getElem?_take]
  by_cases hn : n < k <;> simp [hn]

theorem digitRun_take_iff {j : Nat} (hk : digitAt text k = false) :
    DigitRun (text.take k) i j ↔ DigitRun text i j ∧ i < k := by
  have hboundary : i < k → (Boundary (text.take k) i ↔ Boundary text i) := by
    intro hik
    have hprev : i - 1 < k := by omega
    simp [Boundary, digitAt_take, hik, hprev]
  constructor
  · intro h
    have hdigits : ∀ n, i ≤ n → n < j → n < k ∧ digitAt text n = true := by
      intro n hin hnj
      simpa [digitAt_take] using h.digits n hin hnj
    have hik := (hdigits i le_rfl h.start_lt_stop).1
    refine ⟨⟨h.start_lt_stop, fun n hin hnj => (hdigits n hin hnj).2, ?_, ?_⟩, hik⟩
    · exact (hboundary hik).mp h.boundary
    · have hstop := h.stop
      rw [digitAt_take] at hstop
      by_cases hjk : j < k
      · simpa [hjk] using hstop
      · have hlast := (hdigits (j - 1) (by omega) (by omega)).1
        have heq : j = k := by omega
        rw [heq, hk]
  · rintro ⟨h, hik⟩
    have hjk : j ≤ k := by
      by_contra hlt
      have hd := h.digits k hik.le (by omega)
      rw [hk] at hd
      cases hd
    refine ⟨h.start_lt_stop, fun n hin hnj => ?_, (hboundary hik).mpr h.boundary, ?_⟩
    · have hnk : n < k := by omega
      simp [digitAt_take, hnk, h.digits n hin hnj]
    · simp [digitAt_take, h.stop]

theorem Token.between_take {kind : TokenKind} {j : Nat} (hij : i ≤ j) (hjk : j ≤ k) :
    Token.between (text.take k) kind i j = Token.between text kind i j := by
  have hi : (text.take k).take i = text.take i := by
    rw [List.take_take, Nat.min_eq_left (hij.trans hjk)]
  have hbytes : (text.take k).extract i j = text.extract i j := by
    simp only [List.extract_eq_take_drop, List.drop_take, List.take_take]
    rw [Nat.min_eq_left (by omega)]
  simp only [Token.between, Span.between, hi, hbytes]

/-- Cutting a text where no number goes on drops the tokens behind the cut. -/
theorem tokenOf_take_iff (hk : digitAt text k = false) (hlen : k ≤ text.length) :
    TokenOf (text.take k) t ↔ TokenOf text t ∧ t.span.start < k := by
  constructor
  · intro h
    cases h with
    | @number i j hrun =>
      have hjk := hrun.stop_le_length
      rw [List.length_take, Nat.min_eq_left hlen] at hjk
      rw [Token.between_take hrun.start_lt_stop.le hjk]
      have hrun' := (digitRun_take_iff hk).mp hrun
      exact ⟨.number hrun'.1, hrun'.2⟩
    | @single i b kind hb hkind =>
      rw [List.getElem?_take] at hb
      split_ifs at hb with hik
      rw [Token.between_take (Nat.le_succ i) hik]
      exact ⟨.single hb hkind, hik⟩
  · rintro ⟨h, hlt⟩
    cases h with
    | @number i j hrun =>
      have hrun' := (digitRun_take_iff hk).mpr ⟨hrun, hlt⟩
      have hjk := hrun'.stop_le_length
      rw [List.length_take, Nat.min_eq_left hlen] at hjk
      rw [← Token.between_take hrun.start_lt_stop.le hjk]
      exact .number hrun'
    | @single i b kind hb hkind =>
      have hik : i < k := hlt
      rw [← Token.between_take (Nat.le_succ i) hik]
      exact .single (by rw [List.getElem?_take, if_pos hik, hb]) hkind

theorem tokenizes_take (hk : digitAt text k = false) (hlen : k ≤ text.length) :
    Tokenizes (text.take k) (gather (tokenAt? text) 0 k) where
  mem_iff t := by
    rw [mem_gather_tokenAt?, tokenOf_take_iff hk hlen]
    simp
  increasing := increasing_gather_tokenAt? 0 k

end Take

end Tokens

/-! ### Diagnostics and events -/

/-- The code under which an error is reported. -/
def ScanError.code : ScanError → DiagnosticCode
  | .unsupported .. => .unsupported
  | .unexpectedCharacter .. => .unexpectedCharacter

/-- The diagnostic that tells of an error. -/
def ScanError.diagnostic (e : ScanError) : Diagnostic :=
  (Diagnostic.error e.reason e.span).withCode e.code

/-- The error over a byte that starts no token. -/
def unexpectedAt (text : List UInt8) (i : Nat) (b : UInt8) : ScanError :=
  .unexpectedCharacter (Char.ofNat b.toNat) (.between text i (i + 1))

/-- The error of a scan that a byte stops. -/
def stopAt (text : List UInt8) (i : Nat) (b : UInt8) : ScanError :=
  if b = quoteByte then .unsupported .stringLiteral (.between text i (i + 1))
  else unexpectedAt text i b

/-- The diagnostic over the byte at an offset that a scan passes over. -/
def reportAt? (policy : Policy) (text : List UInt8) (i : Nat) : Option Diagnostic :=
  if policy = .report then
    (text[i]?.filter isForeign).map fun b => (unexpectedAt text i b).diagnostic
  else none

/-- The event of the lexeme that starts at an offset, as long as a scan goes on. -/
def eventAt? (policy : Policy) (text : List UInt8) (i : Nat) : Option Event :=
  match tokenAt? text i with
  | some t => some (.tokenRead t.kind t.span.start t.span.stop)
  | none =>
    (text[i]?.filter isForeign).bind fun b =>
      let place := Span.between text i (i + 1)
      match policy with
      | .skip => some (.byteSkipped b)
      | .report => some (.characterReported (Char.ofNat b.toNat) place.line place.column)
      | .reject => none

section Lexemes

variable {text : List UInt8} {policy : Policy} {i n : Nat} {b : UInt8}

theorem span_stopAt : (stopAt text i b).span = .between text i (i + 1) := by
  unfold stopAt
  split_ifs <;> rfl

theorem placed_stopAt (hb : text[i]? = some b) : (stopAt text i b).span.Placed text := by
  rw [span_stopAt]
  exact Span.placed_byte hb

theorem reportAt?_of_not_isForeign (hb : text[i]? = some b) (hf : isForeign b = false) :
    reportAt? policy text i = none := by
  simp [reportAt?, hb, Option.filter, hf]

theorem placed_of_reportAt? {d : Diagnostic} (hd : reportAt? policy text i = some d) :
    d.span.Placed text := by
  unfold reportAt? at hd
  split_ifs at hd
  obtain ⟨b, hb, rfl⟩ := Option.map_eq_some_iff.mp hd
  obtain ⟨hb, _⟩ := Option.filter_eq_some_iff.mp hb
  exact Span.placed_byte hb

theorem eventAt?_of_tokenAt? {t : Token} (ht : tokenAt? text i = some t) :
    eventAt? policy text i = some (.tokenRead t.kind t.span.start t.span.stop) := by
  simp [eventAt?, ht]

theorem eventAt?_of_not_isForeign (ht : tokenAt? text i = none) (hb : text[i]? = some b)
    (hf : isForeign b = false) : eventAt? policy text i = none := by
  simp [eventAt?, ht, hb, Option.filter, hf]

/-- The offsets behind the first of a lexeme lie inside a run of digits. -/
theorem inside_lexeme (hi : i < text.length) (hin : i < n) (hn : n < lexemeEnd text i) :
    digitAt text n = true ∧ ¬ Boundary text n := by
  unfold lexemeEnd at hn
  split_ifs at hn with hd
  · have hdigit := digitAt_of_lt_digitsEnd hi.le hin.le hn
    have hprev := digitAt_of_lt_digitsEnd (n := n - 1) hi.le (by omega) (by omega)
    exact ⟨hdigit, fun hb => hb ⟨by omega, hprev, hdigit⟩⟩
  · omega

theorem tokenAt?_inside (hd : digitAt text n = true) (hn : ¬ Boundary text n) :
    tokenAt? text n = none := by
  rw [tokenAt?, if_pos hd, if_neg hn]

theorem reportAt?_inside (hd : digitAt text n = true) : reportAt? policy text n = none := by
  obtain ⟨b, hb, hd⟩ := (Option.any_eq_true _ _).mp hd
  exact reportAt?_of_not_isForeign hb (isForeign_of_isDigit hd)

theorem eventAt?_inside (hd : digitAt text n = true) (hn : ¬ Boundary text n) :
    eventAt? policy text n = none := by
  obtain ⟨b, hb, hdigit⟩ := (Option.any_eq_true _ _).mp hd
  exact eventAt?_of_not_isForeign (tokenAt?_inside hd hn) hb (isForeign_of_isDigit hdigit)

theorem gather_lexemeEnd {α : Type} {f : Nat → Option α} (hi : i < text.length)
    (hf : ∀ n, digitAt text n = true → ¬ Boundary text n → f n = none) :
    gather f i (lexemeEnd text i) = (f i).toList := by
  refine gather_first lt_lexemeEnd fun n hin hn => ?_
  obtain ⟨hd, hb⟩ := inside_lexeme hi hin hn
  exact hf n hd hb

/-- Digits do not stop a scan. -/
theorem lexemeEnd_le_firstFrom (hb : text[i]? = some b) (hs : policy.stops b = false) :
    lexemeEnd text i ≤ firstFrom policy.stops text i := by
  obtain ⟨hi, _⟩ := List.getElem?_eq_some_iff.mp hb
  by_contra hlt
  have hstop : firstFrom policy.stops text i < text.length :=
    lt_of_lt_of_le (by omega) (lexemeEnd_le_length hi)
  have hget := List.getElem?_eq_getElem hstop
  have hnot := not_isDigit_of_stops (of_getElem?_firstFrom hget)
  have hd := (inside_lexeme hi (lt_firstFrom hb hs) (by omega)).1
  rw [digitAt_of_getElem? hget, hnot] at hd
  cases hd

/-- Where a scan stops there is no digit. -/
theorem not_digitAt_firstFrom_stops : digitAt text (firstFrom policy.stops text i) = false := by
  rw [digitAt, Option.any_eq_false]
  intro b hb
  have hd := not_isDigit_of_stops (of_getElem?_firstFrom hb)
  simp [hd]

end Lexemes

/-! ### Diagnostics of all bytes -/

/-- The diagnostic over the byte at an offset, whether a scan passes over it or stops there. -/
def noticeAt? (policy : Policy) (text : List UInt8) (i : Nat) : Option Diagnostic :=
  if text[i]? = some quoteByte then some (stopAt text i quoteByte).diagnostic
  else reportAt? policy text i

section Notices

variable {policy : Policy} {text : List UInt8} {i k p q : Nat} {b : UInt8}

theorem noticeAt?_of_ne (hb : text[i]? ≠ some quoteByte) :
    noticeAt? policy text i = reportAt? policy text i := if_neg hb

theorem noticeAt?_of_none (hi : text[i]? = none) : noticeAt? policy text i = none := by
  simp [noticeAt?, reportAt?, hi]

/-- Before the stop there is no double quote. -/
theorem gather_noticeAt? (hq : q ≤ firstFrom policy.stops text p) :
    gather (noticeAt? policy text) p q = gather (reportAt? policy text) p q := by
  refine gather_congr fun i hpi hiq => noticeAt?_of_ne fun hb => ?_
  have hs : policy.stops quoteByte = false := not_of_lt_firstFrom hpi (by omega) hb
  simp [Policy.stops] at hs

/-- Of the bytes that stop a scan only the double quote is told of in a diagnostic. -/
theorem gather_noticeAt?_of_stops (hb : text[k]? = some b) (hs : policy.stops b = true) :
    gather (noticeAt? policy text) k (k + 1) =
      if b = quoteByte then [(stopAt text k b).diagnostic] else [] := by
  rw [gather_succ]
  by_cases hq : b = quoteByte
  · subst b
    simp [noticeAt?, hb]
  · obtain ⟨rfl, -⟩ := reject_of_stops hq hs
    rw [noticeAt?_of_ne (by simp [hb, hq]), if_neg hq]
    rfl

end Notices

end ArithLexer
