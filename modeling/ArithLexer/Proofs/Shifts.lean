import ArithLexer.Proofs.Contents

/-!
# Texts one behind the other

A text that is put behind another one keeps its contents but moves: its offsets
grow by the bytes before it, its lines by the line feeds among them, and the
columns of its first line by those of the last line before it (`Shift.past`,
`Position.behind_append`). So every offset holds what it held, moved, and a
stretch does as well (`gather_tokenAt?_append`, `gather_noticeAt?_append`).

Only two numbers that meet at the seam become one. The contents on both sides
of it are still those of the two texts (`gather_tokenAt?_fuse`).
-/

namespace ArithLexer

/-- How far the places of a text move when another text is put before it. -/
structure Shift where
  bytes : Nat
  lines : Nat
  columns : Nat
  deriving DecidableEq, Repr

namespace Shift

variable (δ : Shift)

/-- Only the first line goes on where the text before it ends. -/
def column (line column : Nat) : Nat := if line = 1 then δ.columns + column else column

theorem column_succ (line column : Nat) :
    δ.column line (column + 1) = δ.column line column + 1 := by
  unfold Shift.column
  split <;> omega

def position (p : Position) : Position :=
  ⟨δ.bytes + p.offset, δ.lines + p.line, δ.column p.line p.column⟩

def span (s : Span) : Span :=
  ⟨δ.bytes + s.start, δ.bytes + s.stop, δ.lines + s.line, δ.column s.line s.column⟩

def token (t : Token) : Token := { t with span := δ.span t.span }

/-- A token whose text goes on with that of a token behind it. -/
def fuse (t u : Token) : Token :=
  { t with
    lexeme := ⟨t.lexeme.bytes ++ u.lexeme.bytes⟩
    span := { t.span with stop := δ.bytes + u.span.stop } }

def diagnostic (d : Diagnostic) : Diagnostic := { d with span := δ.span d.span }

def error : ScanError → ScanError
  | .unsupported feature span => .unsupported feature (δ.span span)
  | .unexpectedCharacter character span => .unexpectedCharacter character (δ.span span)

/-- The shift of what is put behind a text. -/
def past (text : List UInt8) : Shift :=
  ⟨text.length, text.count lineFeed, (Position.behind text).column - 1⟩

theorem diagnostic_error (e : ScanError) : (δ.error e).diagnostic = δ.diagnostic e.diagnostic := by
  cases e <;> rfl

end Shift

/-! ### Places -/

section Places

variable (a b : List UInt8) {kind : TokenKind} {i j : Nat}

theorem Position.one_le_behind (text : List UInt8) :
    1 ≤ (behind text).line ∧ 1 ≤ (behind text).column :=
  ⟨Nat.le_add_right _ _, Nat.le_add_right _ _⟩

theorem Position.column_behind_append :
    (behind (a ++ b)).column = (Shift.past a).column (behind b).line (behind b).column := by
  induction b using List.reverseRecOn with
  | nil =>
    have hone := (one_le_behind a).2
    rw [List.append_nil]
    change (behind a).column = (behind a).column - 1 + 1
    omega
  | append_singleton b c ih =>
    rw [← List.append_assoc]
    by_cases hc : c = lineFeed
    · subst c
      have hone := (one_le_behind b).1
      rw [behind_concat_lineFeed, behind_concat_lineFeed, Shift.column, if_neg (by dsimp; omega)]
    · rw [behind_concat_of_ne _ hc, behind_concat_of_ne _ hc, Shift.column_succ, ← ih]

/-- The position behind two texts is that behind the second, moved past the first. -/
theorem Position.behind_append :
    behind (a ++ b) = (Shift.past a).position (behind b) := by
  have hline : (behind (a ++ b)).line = a.count lineFeed + (behind b).line := by
    simp only [behind, List.count_append]
    omega
  have hoffset : (behind (a ++ b)).offset = a.length + (behind b).offset := by simp
  rw [Shift.position, ← column_behind_append, mk.injEq]
  exact ⟨hoffset, hline, rfl⟩

theorem Span.between_append_right (i j : Nat) :
    between (a ++ b) (a.length + i) (a.length + j) = (Shift.past a).span (between b i j) := by
  rw [between, List.take_length_add_append, Position.behind_append]
  rfl

theorem Span.between_append_left (hi : i ≤ a.length) :
    between (a ++ b) i j = between a i j := by
  rw [between, List.take_append_of_le_length hi]
  rfl

theorem Token.between_append_right (i j : Nat) :
    between (a ++ b) kind (a.length + i) (a.length + j) =
      (Shift.past a).token (between b kind i j) := by
  rw [between, Span.between_append_right, List.extract_eq_take_drop,
    List.drop_length_add_append, Nat.add_sub_add_left, ← List.extract_eq_take_drop]
  rfl

theorem Token.between_append_left (hij : i ≤ j) (hj : j ≤ a.length) :
    between (a ++ b) kind i j = between a kind i j := by
  rw [← between_take hij hj, List.take_left]

/-- A stretch over the seam is one of the first text that goes on in the second. -/
theorem Token.between_append (hi : i ≤ a.length) (j : Nat) :
    between (a ++ b) kind i (a.length + j) =
      (Shift.past a).fuse (between a kind i a.length) (between b kind 0 j) := by
  have hbytes : (a ++ b).extract i (a.length + j) = a.extract i a.length ++ b.extract 0 j := by
    have hlength : a.length + j - i = (a.drop i).length + j := by
      rw [List.length_drop]
      omega
    have hall : a.extract i a.length = a.drop i := by
      rw [List.extract_eq_take_drop, ← List.length_drop, List.take_length]
    rw [hall, List.extract_eq_take_drop, List.extract_eq_take_drop,
      List.drop_append_of_le_length hi, hlength, List.take_length_add_append]
    rfl
  rw [between, Span.between_append_left a b hi, hbytes]
  rfl

end Places

/-! ### Digits -/

section Digits

variable {a b : List UInt8} {q : UInt8 → Bool} {i : Nat}

theorem getElem?_length_add (a b : List UInt8) (i : Nat) : (a ++ b)[a.length + i]? = b[i]? := by
  rw [List.getElem?_append_right (Nat.le_add_right _ _), Nat.add_sub_cancel_left]

theorem digitAt_append_right (a b : List UInt8) (i : Nat) :
    digitAt (a ++ b) (a.length + i) = digitAt b i := by
  rw [digitAt, getElem?_length_add, digitAt]

theorem digitAt_append_left (hi : i < a.length) : digitAt (a ++ b) i = digitAt a i := by
  rw [digitAt, List.getElem?_append_left hi, digitAt]

theorem boundary_append_left (hi : i < a.length) : Boundary (a ++ b) i ↔ Boundary a i := by
  have hprev : i - 1 < a.length := by omega
  rw [Boundary, Boundary, digitAt_append_left hi, digitAt_append_left hprev]

/-- Behind the first byte of the second text nothing of the first matters. -/
theorem boundary_append_right (hi : 0 < i) :
    Boundary (a ++ b) (a.length + i) ↔ Boundary b i := by
  have hpos : 0 < a.length + i := by omega
  rw [Boundary, Boundary, Nat.add_sub_assoc hi, digitAt_append_right, digitAt_append_right]
  simp [hi, hpos]

theorem firstFrom_append_right (a b : List UInt8) (i : Nat) :
    firstFrom q (a ++ b) (a.length + i) = a.length + firstFrom q b i := by
  rw [firstFrom, List.drop_length_add_append, Nat.add_assoc, firstFrom]

theorem digitsEnd_append_right (a b : List UInt8) (i : Nat) :
    digitsEnd (a ++ b) (a.length + i) = a.length + digitsEnd b i := firstFrom_append_right a b i

/-- Digits of the first text end where they did if they do not go on in the second. -/
theorem digitsEnd_append_left (hi : i ≤ a.length)
    (hstop : digitAt (a ++ b) (digitsEnd a i) = false) : digitsEnd (a ++ b) i = digitsEnd a i := by
  have hle : digitsEnd a i ≤ a.length := firstFrom_le_length hi
  refine firstFrom_eq le_firstFrom (by rw [List.length_append]; omega) ?_ ?_
  · intro n c hin hn hc
    rw [List.getElem?_append_left (by omega)] at hc
    exact not_of_lt_firstFrom hin hn hc
  · intro c hc
    rw [digitAt_of_getElem? hc] at hstop
    simp [hstop]

/-- Before a boundary no digits of the first text go on in the second. -/
theorem not_digitAt_digitsEnd_append {m : Nat} (hm : m < i) (hi : i ≤ a.length)
    (hb : Boundary (a ++ b) i) : digitAt (a ++ b) (digitsEnd a m) = false := by
  have hle : digitsEnd a m ≤ a.length := firstFrom_le_length (by omega)
  rcases hle.lt_or_eq with hlt | heq
  · rw [digitAt_append_left hlt, not_digitAt_digitsEnd]
  · have hdigits : ∀ n, m ≤ n → n < a.length → digitAt (a ++ b) n = true := by
      intro n hmn hn
      rw [digitAt_append_left hn]
      exact digitAt_of_lt_digitsEnd (by omega) hmn (by omega)
    have hstop : digitAt (a ++ b) i = false := by
      rw [Bool.eq_false_iff]
      intro hd
      exact hb ⟨by omega, hdigits (i - 1) (by omega) (by omega), hd⟩
    -- then the boundary is the seam, for the bytes before that are digits
    rcases hi.lt_or_eq with hlt | rfl
    · rw [hdigits i hm.le hlt] at hstop
      cases hstop
    · rw [heq, hstop]

end Digits

/-! ### Contents -/

section Gather

variable {α : Type} {f g : Nat → Option α} {move : α → α} {i j : Nat}

/-- A stretch further on that holds the same, moved. -/
theorem gather_moved (k : Nat) (h : ∀ n, i ≤ n → n < j → f (k + n) = (g n).map move) :
    gather f (k + i) (k + j) = (gather g i j).map move := by
  have hplaces : List.Ico (k + i) (k + j) = (List.Ico i j).map (k + ·) := by
    rw [List.Ico.map_add, Nat.add_comm i, Nat.add_comm j]
  rw [gather, hplaces, List.filterMap_map, gather, List.map_filterMap]
  refine List.filterMap_congr fun n hn => ?_
  rw [List.Ico.mem] at hn
  exact h n hn.1 hn.2

end Gather

section Contents

variable {policy : Policy} {a b : List UInt8} {i j n : Nat} {c : UInt8}

theorem tokenAt?_append_right (h : Boundary (a ++ b) (a.length + i) ↔ Boundary b i) :
    tokenAt? (a ++ b) (a.length + i) = (tokenAt? b i).map (Shift.past a).token := by
  simp only [tokenAt?, digitAt_append_right, h, getElem?_length_add, digitsEnd_append_right,
    Nat.add_assoc, Token.between_append_right]
  split_ifs
  · rfl
  · rfl
  · rw [Option.map_map]
    rfl

theorem tokenAt?_append_left (hi : i < a.length)
    (hstop : digitAt a i = true → digitAt (a ++ b) (digitsEnd a i) = false) :
    tokenAt? (a ++ b) i = tokenAt? a i := by
  simp only [tokenAt?, digitAt_append_left hi, boundary_append_left hi,
    List.getElem?_append_left hi, Token.between_append_left a b (Nat.le_succ i) hi]
  split_ifs with hd hb
  · have hle : digitsEnd a i ≤ a.length := firstFrom_le_length hi.le
    rw [digitsEnd_append_left hi.le (hstop hd),
      Token.between_append_left a b (lt_digitsEnd hd).le hle]
  · rfl
  · rfl

theorem unexpectedAt_append_right (a b : List UInt8) (i : Nat) (c : UInt8) :
    unexpectedAt (a ++ b) (a.length + i) c = (Shift.past a).error (unexpectedAt b i c) := by
  rw [unexpectedAt, Nat.add_assoc, Span.between_append_right]
  rfl

theorem stopAt_append_right (a b : List UInt8) (i : Nat) (c : UInt8) :
    stopAt (a ++ b) (a.length + i) c = (Shift.past a).error (stopAt b i c) := by
  rw [stopAt, stopAt, unexpectedAt_append_right, Nat.add_assoc, Span.between_append_right]
  split_ifs <;> rfl

theorem noticeAt?_append_right (a b : List UInt8) (i : Nat) :
    noticeAt? policy (a ++ b) (a.length + i) =
      (noticeAt? policy b i).map (Shift.past a).diagnostic := by
  rw [noticeAt?, noticeAt?, reportAt?, reportAt?, getElem?_length_add, stopAt_append_right]
  simp only [unexpectedAt_append_right, Shift.diagnostic_error]
  split_ifs
  · rfl
  · rw [Option.map_map]
    rfl
  · rfl

theorem noticeAt?_append_left (hi : i < a.length) :
    noticeAt? policy (a ++ b) i = noticeAt? policy a i := by
  simp only [noticeAt?, reportAt?, stopAt, unexpectedAt, List.getElem?_append_left hi,
    Span.between_append_left a b hi.le]

/-- The diagnostics of two texts, one behind the other. -/
theorem gather_noticeAt?_append (policy : Policy) (a b : List UInt8) (n : Nat) :
    gather (noticeAt? policy (a ++ b)) 0 (a.length + n) =
      gather (noticeAt? policy a) 0 a.length ++
        (gather (noticeAt? policy b) 0 n).map (Shift.past a).diagnostic := by
  rw [← gather_append (Nat.zero_le _) (Nat.le_add_right a.length n)]
  congr 1
  · exact gather_congr fun i _ hi => noticeAt?_append_left hi
  · exact gather_moved (i := 0) a.length fun i _ _ => noticeAt?_append_right a b i

/-- Behind the first byte of the second text the tokens are those of that text. -/
theorem gather_tokenAt?_append_right (a b : List UInt8) (hi : 0 < i) :
    gather (tokenAt? (a ++ b)) (a.length + i) (a.length + n) =
      (gather (tokenAt? b) i n).map (Shift.past a).token :=
  gather_moved a.length fun _ hm _ =>
    tokenAt?_append_right (boundary_append_right (by omega))

/-- Before a boundary the tokens are those of the first text. -/
theorem gather_tokenAt?_append_left (hi : i ≤ a.length) (hb : Boundary (a ++ b) i) :
    gather (tokenAt? (a ++ b)) 0 i = gather (tokenAt? a) 0 i :=
  gather_congr fun _ _ hm =>
    tokenAt?_append_left (by omega) fun _ => not_digitAt_digitsEnd_append hm hi hb

/-- The tokens of two texts between which no number goes on. -/
theorem gather_tokenAt?_append (hb : Boundary (a ++ b) a.length) (n : Nat) :
    gather (tokenAt? (a ++ b)) 0 (a.length + n) =
      gather (tokenAt? a) 0 a.length ++ (gather (tokenAt? b) 0 n).map (Shift.past a).token := by
  rw [← gather_append (Nat.zero_le _) (Nat.le_add_right a.length n)]
  congr 1
  · exact gather_tokenAt?_append_left le_rfl hb
  · refine gather_moved (i := 0) a.length fun i _ _ => tokenAt?_append_right ?_
    rcases Nat.eq_zero_or_pos i with rfl | hi
    · exact iff_of_true hb boundary_zero
    · exact boundary_append_right hi

/-! ### A number over the seam -/

theorem gather_digitRun {text : List UInt8} (h : DigitRun text i j) :
    gather (tokenAt? text) i j = [.between text .numericLiteral i j] := by
  have hstart := h.digitAt_start
  have hend : j = lexemeEnd text i := by rw [lexemeEnd, if_pos hstart, ← h.stop_eq]
  have hfirst : tokenAt? text i = some (.between text .numericLiteral i j) := by
    rw [tokenAt?, if_pos hstart, if_pos h.boundary, ← h.stop_eq]
  rw [hend, gather_lexemeEnd (lt_length_of_digitAt hstart) fun n => tokenAt?_inside, ← hend,
    hfirst]
  rfl

theorem DigitRun.append (ha : DigitRun a i a.length) (hb : DigitRun b 0 j) :
    DigitRun (a ++ b) i (a.length + j) where
  start_lt_stop := by
    have hi := ha.start_lt_stop
    omega
  digits n hin hn := by
    rcases Nat.lt_or_ge n a.length with hlt | hge
    · rw [digitAt_append_left hlt]
      exact ha.digits n hin hlt
    · obtain ⟨m, rfl⟩ := Nat.exists_eq_add_of_le hge
      rw [digitAt_append_right]
      exact hb.digits m (Nat.zero_le m) (by omega)
  boundary := (boundary_append_left ha.start_lt_stop).mpr ha.boundary
  stop := by rw [digitAt_append_right, hb.stop]

/-- The tokens of two texts where the last number of the first goes on in the second. -/
theorem gather_tokenAt?_fuse (ha : DigitRun a i a.length) (hb : DigitRun b 0 j) (hn : j ≤ n) :
    gather (tokenAt? (a ++ b)) 0 (a.length + n) =
      gather (tokenAt? a) 0 i ++
        (Shift.past a).fuse (.between a .numericLiteral i a.length)
          (.between b .numericLiteral 0 j) ::
        (gather (tokenAt? b) j n).map (Shift.past a).token := by
  have hrun := ha.append hb
  have hi := ha.start_lt_stop.le
  rw [← gather_append (Nat.zero_le i) (Nat.le_add_right_of_le hi),
    ← gather_append hrun.start_lt_stop.le (Nat.add_le_add_left hn a.length),
    gather_tokenAt?_append_left hi hrun.boundary, gather_digitRun hrun,
    gather_tokenAt?_append_right a b hb.start_lt_stop, Token.between_append a b hi]
  rfl

end Contents

end ArithLexer
