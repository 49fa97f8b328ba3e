import ArithLexer.Lexer.Scan
import ArithLexer.Proofs.Contents

/-!
# Reading a text

A lexer whose cursor stands at a boundary of its source gathers what the text
holds from there on. `Reads` compares the lexer before and after a stretch
that did not stop it, `Stops` before and after the byte that did. One lexeme
does one or the other (`step_reads`, `step_stops`); a pull goes on to the first
token (`seek_cases`) and a scan to the stop (`collect_cases`, `scan_cases`).
Either ends early if a counter does; `seek_spec` and `scan_spec` say what is
left where none can.
-/

namespace ArithLexer
namespace Lexer

/-- What a lexer is after reading a stretch of its source, and pushing some tokens. -/
structure Reads (source : Array UInt8) (p q : Nat) (pushed : List Token) (l m : Lexer) :
    Prop where
  cursor : m.cursor = .behind source q
  config : m.config = l.config
  tokens : m.tokens = l.tokens.extend pushed
  diagnostics : m.diagnostics.toList =
    l.diagnostics.toList ++ gather (reportAt? l.config.unknownChars source.toList) p q
  log : m.log.toList =
    l.log.toList ++ gather (eventAt? l.config.unknownChars source.toList) p q
  halted : m.halted = l.halted

/-- What a lexer is after a byte that stopped it. -/
structure Stops (source : Array UInt8) (k : Nat) (b : UInt8) (l m : Lexer) : Prop where
  cursor : m.cursor = .behind source (k + 1)
  config : m.config = l.config
  tokens : m.tokens = l.tokens
  diagnostics : m.diagnostics.toList =
    l.diagnostics.toList ++
      if b = quoteByte then [(stopAt source.toList k b).diagnostic] else []
  log : m.log.toList =
    l.log.toList ++
      if b = quoteByte then []
      else
        let place := Span.between source.toList k (k + 1)
        [.characterRejected (Char.ofNat b.toNat) place.line place.column]
  halted : m.halted = true

theorem Reads.refl {source : Array UInt8} {p : Nat} {l : Lexer}
    (hl : l.cursor = .behind source p) : Reads source p p [] l l where
  cursor := hl
  config := rfl
  tokens := rfl
  diagnostics := by simp
  log := by simp
  halted := rfl

theorem Reads.trans {source : Array UInt8} {p q r : Nat} {xs ys : List Token} {l m n : Lexer}
    (h : Reads source p q xs l m) (h' : Reads source q r ys m n) (hpq : p ≤ q) (hqr : q ≤ r) :
    Reads source p r (xs ++ ys) l n where
  cursor := h'.cursor
  config := h'.config.trans h.config
  tokens := by
    rw [h'.tokens, h.tokens]
    simp [Buffer.extend]
  diagnostics := by
    rw [h'.diagnostics, h.diagnostics, h.config, List.append_assoc, gather_append hpq hqr]
  log := by rw [h'.log, h.log, h.config, List.append_assoc, gather_append hpq hqr]
  halted := h'.halted.trans h.halted

/-- Reading on does not change where the lexer will stop. -/
theorem Reads.firstFrom_eq {source : Array UInt8} {p q : Nat} {xs : List Token} {l m : Lexer}
    (h : Reads source p q xs l m) (hpq : p ≤ q)
    (hq : q ≤ firstFrom l.config.unknownChars.stops source.toList p) (hp : p ≤ source.size) :
    firstFrom m.config.unknownChars.stops source.toList q =
      firstFrom l.config.unknownChars.stops source.toList p := by
  rw [h.config]
  exact firstFrom_of_le hpq hq (by rwa [Array.length_toList])

/-! ### One lexeme -/

section Step

variable {source : Array UInt8} {l m : Lexer} {n q : Nat} {b : UInt8}

theorem lexemeSpan_eq (hm : m.lexemeStart = .behind (source.toList.take n))
    (hc : m.cursor = .behind source q) (hnq : n ≤ q) (hq : q ≤ source.size) :
    m.lexemeSpan = .ok (.between source.toList n q) := by
  rw [lexemeSpan, hm, hc, Cursor.offset_behind hq]
  exact Position.spanTo_behind hnq (by rw [Array.length_toList]; omega)

theorem makeToken_eq (kind : TokenKind) (hm : m.lexemeStart = .behind (source.toList.take n))
    (hc : m.cursor = .behind source q) (hnq : n ≤ q) (hq : q ≤ source.size) :
    m.makeToken kind = .ok (.between source.toList kind n q) := by
  have hlength : (Span.between source.toList n q).length = .ok (q - n) := Span.length_of_le _ hnq
  have hview : View.ofRange source n (q - n) = .ok ⟨source.toList.extract n q⟩ := by
    rw [View.ofRange_of_le (by omega), List.extract_eq_take_drop]
  have htoken : Token.new kind ⟨source.toList.extract n q⟩ (.between source.toList n q) =
      .ok (.between source.toList kind n q) := by
    refine Token.new_of_length hnq ?_ kind
    simp only [View.length, List.extract_eq_take_drop, List.length_take, List.length_drop,
      Array.length_toList, Span.stop_between, Span.start_between]
    omega
  simp only [makeToken, lexemeSpan_eq hm hc hnq hq, hlength, hc, Cursor.source_behind,
    Span.start_between, hview, htoken, bind, Except.bind]

/-- The lexer between reading a lexeme and acting on it. -/
def reading (l : Lexer) (source : Array UInt8) (n : Nat) : Lexer :=
  { l.mark with cursor := .behind source (lexemeEnd source.toList n) }

theorem lexemeStart_reading (hl : l.cursor = .behind source n) :
    (l.reading source n).lexemeStart = .behind (source.toList.take n) := by
  change l.cursor.position = _
  rw [hl, Cursor.position_behind]

/-- A step acts on the lexeme at the cursor, unless a counter ends in it. -/
theorem step_eq (hl : l.cursor = .behind source n) (hb : source.toList[n]? = some b)
    (hc : Position.Countable source.toList n) :
    l.step = if Position.Countable source.toList (lexemeEnd source.toList n) then
      (l.reading source n).act (lexemeOf b) else .error .positionOverflow := by
  have hn := lt_size_of_getElem? hb
  have hatEnd : l.cursor.atEnd = false := by
    rw [hl, Cursor.atEnd_behind hn.le]
    exact decide_eq_false (by omega)
  have hcursor : l.mark.cursor = .behind source n := hl
  rw [step, hatEnd, scanLexeme, hcursor, Cursor.readLexeme_behind_eq hb hc]
  by_cases hend : Position.Countable source.toList (lexemeEnd source.toList n)
  · rw [if_pos hend, if_pos hend]
    rfl
  · rw [if_neg hend, if_neg hend]
    rfl

theorem step_eq_act (hl : l.cursor = .behind source n) (hb : source.toList[n]? = some b)
    (hc : Position.Countable source.toList (lexemeEnd source.toList n)) :
    l.step = (l.reading source n).act (lexemeOf b) := by
  rw [step_eq hl hb (hc.mono lt_lexemeEnd.le), if_pos hc]

theorem step_of_not_countable (hl : l.cursor = .behind source n)
    (hb : source.toList[n]? = some b) (hc : Position.Countable source.toList n)
    (hend : ¬ Position.Countable source.toList (lexemeEnd source.toList n)) :
    l.step = .error .positionOverflow := by
  rw [step_eq hl hb hc, if_neg hend]

theorem step_of_none (hl : l.cursor = .behind source n) (hn : n ≤ source.size)
    (hb : source.toList[n]? = none) : l.step = .ok (some (.ok none), l) := by
  have hle : source.size ≤ n := by simpa using hb
  have hatEnd : l.cursor.atEnd = true := by
    rw [hl, Cursor.atEnd_behind hn]
    exact decide_eq_true hle
  rw [step, hatEnd]
  rfl

/-- Acting on a token tells of it and changes nothing else. -/
theorem act_token {kind : TokenKind} (hl : l.cursor = .behind source n)
    (hb : source.toList[n]? = some b)
    (ht : tokenAt? source.toList n =
      some (.between source.toList kind n (lexemeEnd source.toList n)))
    (hf : isForeign b = false) :
    ∃ m, (l.reading source n).act (.token kind) =
        .ok ((tokenAt? source.toList n).map fun t => .ok (some t), m) ∧
      Reads source n (lexemeEnd source.toList n) [] l m := by
  have hn := (List.getElem?_eq_some_iff.mp hb).1
  have hend := lexemeEnd_le_size hb
  have hmake := makeToken_eq kind (lexemeStart_reading hl) rfl lt_lexemeEnd.le hend
  refine ⟨(l.reading source n).tell (.tokenRead kind n (lexemeEnd source.toList n)),
    by rw [act, hmake, ht]; rfl, rfl, rfl, rfl, ?_, ?_, rfl⟩
  · rw [gather_lexemeEnd hn fun _ hd _ => reportAt?_inside hd,
      reportAt?_of_not_isForeign hb hf]
    simp [tell, reading, mark]
  · rw [gather_lexemeEnd hn fun _ hd hi => eventAt?_inside hd hi, eventAt?_of_tokenAt? ht]
    simp [tell, reading, mark, Token.between]

section PassOver

variable {span : Span}

theorem passOver_of_isBlank (hblank : isBlank b = true) : m.passOver b = .ok (none, m) :=
  if_pos hblank

theorem passOver_skip (hblank : isBlank b = false) (hpolicy : m.config.unknownChars = .skip) :
    m.passOver b = .ok (none, m.tell (.byteSkipped b)) := by
  simp [passOver, hblank, hpolicy]

theorem passOver_report (hblank : isBlank b = false)
    (hpolicy : m.config.unknownChars = .report) (hspan : m.lexemeSpan = .ok span) :
    m.passOver b = .ok (none,
      (m.tell (.characterReported (Char.ofNat b.toNat) span.line span.column)).emit
        (ScanError.unexpectedCharacter (Char.ofNat b.toNat) span).diagnostic) := by
  simp only [passOver, hblank, hpolicy, hspan, Bool.false_eq_true, if_false]
  rfl

theorem passOver_reject (hblank : isBlank b = false)
    (hpolicy : m.config.unknownChars = .reject) (hspan : m.lexemeSpan = .ok span) :
    m.passOver b = .ok (some (.unexpectedCharacter (Char.ofNat b.toNat) span),
      { m.tell (.characterRejected (Char.ofNat b.toNat) span.line span.column) with
        halted := true }) := by
  simp only [passOver, hblank, hpolicy, hspan, Bool.false_eq_true, if_false]
  rfl

end PassOver

theorem act_skipped {stopped : Option ScanError} {m' : Lexer}
    (h : m.passOver b = .ok (stopped, m')) :
    m.act (.skipped b) = .ok (stopped.map .error, m') := by
  rw [act, h]
  rfl

theorem act_unsupported {span : Span} (hspan : m.lexemeSpan = .ok span) :
    m.act (.unsupported .stringLiteral) =
      .ok (some (.error (.unsupported .stringLiteral span)),
        { m.emit (ScanError.unsupported .stringLiteral span).diagnostic with
          halted := true }) := by
  rw [act, hspan]
  rfl

theorem lexemeSpan_reading (hl : l.cursor = .behind source n) (hn : n < source.size)
    (hend : lexemeEnd source.toList n = n + 1) :
    (l.reading source n).lexemeSpan = .ok (.between source.toList n (n + 1)) := by
  refine lexemeSpan_eq (lexemeStart_reading hl) ?_ (Nat.le_succ n) hn
  rw [reading, hend]

/-- A byte that starts no token is passed over as long as it does not stop the scan. -/
theorem passOver_reads (hl : l.cursor = .behind source n) (hb : source.toList[n]? = some b)
    (hd : isDigit b = false) (hkind : TokenKind.ofByte? b = none)
    (hs : l.config.unknownChars.stops b = false) :
    ∃ m, (l.reading source n).passOver b = .ok (none, m) ∧
      Reads source n (lexemeEnd source.toList n) [] l m := by
  have hn := (List.getElem?_eq_some_iff.mp hb).1
  have hend : lexemeEnd source.toList n = n + 1 := lexemeEnd_of_not_isDigit hb hd
  have htoken : tokenAt? source.toList n = none := by
    rw [tokenAt?_of_not_isDigit hb hd, hkind]
    rfl
  have hreports := gather_lexemeEnd (f := reportAt? l.config.unknownChars source.toList) hn
    fun _ hd _ => reportAt?_inside hd
  have hevents := gather_lexemeEnd (f := eventAt? l.config.unknownChars source.toList) hn
    fun _ hd hi => eventAt?_inside hd hi
  by_cases hblank : isBlank b = true
  · have hf : isForeign b = false := by simp [isForeign, hblank]
    refine ⟨_, passOver_of_isBlank hblank, rfl, rfl, rfl, ?_, ?_, rfl⟩
    · rw [hreports, reportAt?_of_not_isForeign hb hf]
      simp [reading, mark]
    · rw [hevents, eventAt?_of_not_isForeign htoken hb hf]
      simp [reading, mark]
  rw [Bool.not_eq_true] at hblank
  have hf : isForeign b = true := by simp [isForeign, hblank, hd, hkind]
  rw [Array.length_toList] at hn
  have hspan := lexemeSpan_reading hl hn hend
  cases hpolicy : l.config.unknownChars with
  | skip =>
    refine ⟨_, passOver_skip hblank hpolicy, rfl, rfl, rfl, ?_, ?_, rfl⟩
    · rw [hreports, hpolicy]
      simp [reportAt?, tell, reading, mark]
    · rw [hevents, hpolicy]
      simp [eventAt?, htoken, hb, Option.filter, hf, tell, reading, mark]
  | report =>
    refine ⟨_, passOver_report hblank hpolicy hspan, rfl, rfl, rfl, ?_, ?_, rfl⟩
    · rw [hreports, hpolicy]
      simp [reportAt?, hb, Option.filter, hf, tell, emit, reading, mark, unexpectedAt]
    · rw [hevents, hpolicy]
      simp [eventAt?, htoken, hb, Option.filter, hf, tell, emit, reading, mark]
  | reject => simp [Policy.stops, hpolicy, hf] at hs

/-- A lexeme that does not stop the lexer is read, and is the result if it is a token. -/
theorem step_reads (hl : l.cursor = .behind source n) (hb : source.toList[n]? = some b)
    (hs : l.config.unknownChars.stops b = false) (hn : Boundary source.toList n)
    (hc : Position.Countable source.toList (lexemeEnd source.toList n)) :
    ∃ m, l.step = .ok ((tokenAt? source.toList n).map fun t => .ok (some t), m) ∧
      Reads source n (lexemeEnd source.toList n) [] l m := by
  rw [step_eq_act hl hb hc]
  by_cases hd : isDigit b = true
  · rw [lexemeOf_of_isDigit hd]
    refine act_token hl hb ?_ (isForeign_of_isDigit hd)
    rw [tokenAt?_of_isDigit hb hd hn, lexemeEnd_of_isDigit hb hd]
  rw [Bool.not_eq_true] at hd
  cases hkind : TokenKind.ofByte? b with
  | some kind =>
    rw [lexemeOf_of_ofByte? hkind]
    refine act_token hl hb ?_ (isForeign_of_ofByte? hkind)
    rw [tokenAt?_of_not_isDigit hb hd, hkind, lexemeEnd_of_not_isDigit hb hd]
    rfl
  | none =>
    have hq := ne_quoteByte_of_not_stops hs
    obtain ⟨m, hpass, hm⟩ := passOver_reads hl hb hd hkind hs
    refine ⟨m, ?_, hm⟩
    rw [lexemeOf_of_ofByte?_eq_none hq hd hkind, act_skipped hpass,
      tokenAt?_of_not_isDigit hb hd, hkind]
    rfl

/-- A byte that stops the lexer is the error of the result. -/
theorem step_stops (hl : l.cursor = .behind source n) (hb : source.toList[n]? = some b)
    (hs : l.config.unknownChars.stops b = true)
    (hc : Position.Countable source.toList (n + 1)) :
    ∃ m, l.step = .ok (some (.error (stopAt source.toList n b)), m) ∧
      Stops source n b l m := by
  have hd := not_isDigit_of_stops hs
  have hend : lexemeEnd source.toList n = n + 1 := lexemeEnd_of_not_isDigit hb hd
  have hspan := lexemeSpan_reading hl (lt_size_of_getElem? hb) hend
  have hcursor : (l.reading source n).cursor = .behind source (n + 1) := by rw [reading, hend]
  rw [step_eq_act hl hb (hend ▸ hc)]
  by_cases hq : b = quoteByte
  · subst b
    refine ⟨_, act_unsupported hspan, hcursor, rfl, rfl, ?_, ?_, rfl⟩
    · simp [emit, reading, mark, stopAt]
    · simp [emit, reading, mark]
  · obtain ⟨hpolicy, hf⟩ := reject_of_stops hq hs
    obtain ⟨-, hkind, hblank⟩ := isForeign_iff.mp hf
    have hpass := passOver_reject hblank (m := l.reading source n) hpolicy hspan
    rw [lexemeOf_of_ofByte?_eq_none hq hd hkind, act_skipped hpass, stopAt, if_neg hq]
    refine ⟨_, rfl, hcursor, rfl, rfl, ?_, ?_, rfl⟩
    · simp [tell, reading, mark, hq]
    · simp [tell, reading, mark, hq]

end Step

/-! ### Pulling -/

section Seek

variable {source : Array UInt8} {l m m' : Lexer} {p q : Nat} {r : Pulled}

theorem seek_of_step_none (h : l.step = .ok (none, m)) : l.seek = m.seek := by
  rw [seek]
  split <;> rename_i hs <;> rw [h] at hs <;> cases hs
  rfl

theorem seek_of_step_some (h : l.step = .ok (some r, m)) : l.seek = .ok (r, m) := by
  rw [seek]
  split <;> rename_i hs <;> rw [h] at hs <;> cases hs
  rfl

theorem seek_of_step_fault {fault : Fault} (h : l.step = .error fault) :
    l.seek = .error fault := by
  rw [seek]
  split <;> rename_i hs <;> rw [h] at hs <;> cases hs
  rfl

/-- What pulling from an offset leads to: the first token before the stop, or the stop. -/
inductive Sought (source : Array UInt8) (p : Nat) (l : Lexer) : Pulled → Lexer → Prop
  | token {t : Token} {q : Nat} {m : Lexer} (hpq : p ≤ q)
      (hq : q ≤ firstFrom l.config.unknownChars.stops source.toList p)
      (hb : Boundary source.toList q) (ht : gather (tokenAt? source.toList) p q = [t])
      (hstop : t.span.stop = q) (hm : Reads source p q [] l m) : Sought source p l (.ok (some t)) m
  | finished {m : Lexer}
      (hk : firstFrom l.config.unknownChars.stops source.toList p = source.size)
      (ht : gather (tokenAt? source.toList) p source.size = [])
      (hm : Reads source p source.size [] l m) : Sought source p l (.ok none) m
  | stopped {k : Nat} {b : UInt8} {m m' : Lexer}
      (hk : firstFrom l.config.unknownChars.stops source.toList p = k)
      (hb : source.toList[k]? = some b) (ht : gather (tokenAt? source.toList) p k = [])
      (hm : Reads source p k [] l m) (hs : Stops source k b m m') :
      Sought source p l (.error (stopAt source.toList k b)) m'

/-- Pulling goes on behind a stretch without tokens. -/
theorem Sought.of_reads (h : Reads source p q [] l m) (hpq : p ≤ q)
    (hq : q ≤ firstFrom l.config.unknownChars.stops source.toList p) (hp : p ≤ source.size)
    (ht : gather (tokenAt? source.toList) p q = []) (hm : Sought source q m r m') :
    Sought source p l r m' := by
  have hsame := h.firstFrom_eq hpq hq hp
  have hbefore : ∀ {i}, q ≤ i → gather (tokenAt? source.toList) p i =
      gather (tokenAt? source.toList) q i := by
    intro i hi
    rw [← gather_append hpq hi, ht, List.nil_append]
  have hqs : q ≤ source.size := by
    have hlength : p ≤ source.toList.length := by rwa [Array.length_toList]
    have hle := hq.trans (firstFrom_le_length hlength)
    rwa [Array.length_toList] at hle
  cases hm with
  | @token t i m'' hqi hi hb ht' hstop hm' =>
    exact .token (hpq.trans hqi) (hsame ▸ hi) hb ((hbefore hqi).trans ht') hstop
      (h.trans hm' hpq hqi)
  | finished hk ht' hm' =>
    exact .finished (hsame ▸ hk) ((hbefore hqs).trans ht') (h.trans hm' hpq hqs)
  | @stopped k b n n' hk hb ht' hm' hs =>
    have hqk : q ≤ k := hk ▸ le_firstFrom
    exact .stopped (hsame ▸ hk) hb ((hbefore hqk).trans ht') (h.trans hm' hpq hqk) hs

/-- A pull finds the first token before the stop, or the stop, unless a counter ends in
between. -/
theorem seek_cases (hl : l.cursor = .behind source p) (hp : p ≤ source.size)
    (hb : Boundary source.toList p) (hc : Position.Countable source.toList p) :
    (∃ r m, l.seek = .ok (r, m) ∧ Sought source p l r m ∧
      Position.Countable source.toList m.cursor.offset) ∨
    (l.seek = .error .positionOverflow ∧ ¬ Position.Countable source.toList
      (firstFrom l.config.unknownChars.stops source.toList p + 1)) := by
  -- every lexeme passed over leaves fewer bytes behind
  induction hlen : source.size - p using Nat.strong_induction_on generalizing p l with
  | _ len ih =>
  cases hbyte : source.toList[p]? with
  | none =>
    have hpsize : p = source.size := by
      have hle : source.size ≤ p := by simpa using hbyte
      omega
    subst p
    refine .inl ⟨.ok none, l, seek_of_step_some (step_of_none hl hp hbyte), ?_, ?_⟩
    · refine .finished ?_ gather_self (Reads.refl hl)
      exact firstFrom_eq le_rfl (by simp) (fun i _ _ _ _ => by omega) (by simp)
    · rwa [hl, Cursor.offset_behind le_rfl]
  | some b =>
    have hps := lt_size_of_getElem? hbyte
    cases hs : l.config.unknownChars.stops b with
    | true =>
      have hk := firstFrom_eq_self hbyte hs
      by_cases hnext : Position.Countable source.toList (p + 1)
      · obtain ⟨m, hstep, hm⟩ := step_stops hl hbyte hs hnext
        refine .inl ⟨_, m, seek_of_step_some hstep,
          .stopped hk hbyte gather_self (Reads.refl hl) hm, ?_⟩
        rwa [hm.cursor, Cursor.offset_behind hps]
      · have hend : lexemeEnd source.toList p = p + 1 :=
          lexemeEnd_of_not_isDigit hbyte (not_isDigit_of_stops hs)
        have hstep := step_of_not_countable hl hbyte hc (hend.symm ▸ hnext)
        exact .inr ⟨seek_of_step_fault hstep, hk.symm ▸ hnext⟩
    | false =>
      have hend := lexemeEnd_le_firstFrom hbyte hs
      have hsize := lexemeEnd_le_size hbyte
      have hlt : p < lexemeEnd source.toList p := lt_lexemeEnd
      by_cases hnext : Position.Countable source.toList (lexemeEnd source.toList p)
      case neg =>
        have hstep := step_of_not_countable hl hbyte hc hnext
        exact .inr ⟨seek_of_step_fault hstep, fun h => hnext (h.mono (by omega))⟩
      obtain ⟨m, hstep, hm⟩ := step_reads hl hbyte hs hb hnext
      have htokens := gather_lexemeEnd (f := tokenAt? source.toList) (i := p) (by simpa using hps)
        fun _ hd hn => tokenAt?_inside hd hn
      cases ht : tokenAt? source.toList p with
      | some t =>
        rw [ht] at hstep htokens
        refine .inl ⟨_, m, seek_of_step_some hstep,
          .token hlt.le hend boundary_lexemeEnd htokens (stop_of_tokenAt? ht) hm, ?_⟩
        rwa [hm.cursor, Cursor.offset_behind hsize]
      | none =>
        rw [ht] at hstep htokens
        have hsame := hm.firstFrom_eq hlt.le hend hp
        have hseek := seek_of_step_none hstep
        rcases ih (source.size - lexemeEnd source.toList p) (by omega) hm.cursor hsize
          boundary_lexemeEnd hnext rfl with ⟨r, m', hrest, hsought, hcount⟩ | ⟨hrest, hover⟩
        · exact .inl ⟨r, m', hseek.trans hrest, hsought.of_reads hm hlt.le hend hp htokens,
            hcount⟩
        · exact .inr ⟨hseek.trans hrest, hsame ▸ hover⟩

theorem seek_spec (hl : l.cursor = .behind source p) (hp : p ≤ source.size)
    (hb : Boundary source.toList p)
    (hc : Position.Countable source.toList
      (firstFrom l.config.unknownChars.stops source.toList p + 1)) :
    ∃ r m, l.seek = .ok (r, m) ∧ Sought source p l r m := by
  rcases seek_cases hl hp hb (hc.mono (le_firstFrom.trans (Nat.le_succ _))) with
    ⟨r, m, hseek, hsought, _⟩ | ⟨_, hover⟩
  · exact ⟨r, m, hseek, hsought⟩
  · exact absurd hc hover

end Seek

/-! ### Scanning -/

section Collect

variable {source : Array UInt8} {l m : Lexer} {p : Nat}

theorem nextToken_of_not_halted (hh : l.halted = false) : l.nextToken = l.seek := by
  simp [nextToken, hh]

theorem collect_of_token {t : Token} (h : l.nextToken = .ok (.ok (some t), m)) :
    l.collect = collect { m with tokens := m.tokens.push t } := by
  rw [collect]
  split <;> rename_i hn <;> rw [h] at hn <;> cases hn
  rfl

theorem collect_of_none (h : l.nextToken = .ok (.ok none, m)) : l.collect = .ok (none, m) := by
  rw [collect]
  split <;> rename_i hn <;> rw [h] at hn <;> cases hn
  rfl

theorem collect_of_error {e : ScanError} (h : l.nextToken = .ok (.error e, m)) :
    l.collect = .ok (some e, m) := by
  rw [collect]
  split <;> rename_i hn <;> rw [h] at hn <;> cases hn
  rfl

theorem collect_of_fault {fault : Fault} (h : l.nextToken = .error fault) :
    l.collect = .error fault := by
  rw [collect]
  split <;> rename_i hn <;> rw [h] at hn <;> cases hn
  rfl

/-- What collecting from an offset leads to: all tokens before the stop. -/
inductive Collected (source : Array UInt8) (p : Nat) (l : Lexer) :
    Option ScanError → Lexer → Prop
  | finished {m : Lexer}
      (hk : firstFrom l.config.unknownChars.stops source.toList p = source.size)
      (hm : Reads source p source.size (gather (tokenAt? source.toList) p source.size) l m) :
      Collected source p l none m
  | stopped {k : Nat} {b : UInt8} {m m' : Lexer}
      (hk : firstFrom l.config.unknownChars.stops source.toList p = k)
      (hb : source.toList[k]? = some b)
      (hm : Reads source p k (gather (tokenAt? source.toList) p k) l m)
      (hs : Stops source k b m m') :
      Collected source p l (some (stopAt source.toList k b)) m'

theorem Reads.push {q : Nat} (h : Reads source p q [] l m) (t : Token) :
    Reads source p q [t] l { m with tokens := m.tokens.push t } where
  cursor := h.cursor
  config := h.config
  tokens := by rw [h.tokens]; rfl
  diagnostics := h.diagnostics
  log := h.log
  halted := h.halted

theorem Collected.of_reads {q : Nat} {xs : List Token} {r : Option ScanError} {m' : Lexer}
    (h : Reads source p q xs l m) (hpq : p ≤ q)
    (hq : q ≤ firstFrom l.config.unknownChars.stops source.toList p) (hp : p ≤ source.size)
    (ht : gather (tokenAt? source.toList) p q = xs) (hm : Collected source q m r m') :
    Collected source p l r m' := by
  have hsame := h.firstFrom_eq hpq hq hp
  cases hm with
  | finished hk hm' =>
    have hqs : q ≤ source.size := hk ▸ le_firstFrom
    have hall := h.trans hm' hpq hqs
    rw [← ht, gather_append hpq hqs] at hall
    exact .finished (hsame ▸ hk) hall
  | @stopped k b n n' hk hb hm' hs =>
    have hqk : q ≤ k := hk ▸ le_firstFrom
    have hall := h.trans hm' hpq hqk
    rw [← ht, gather_append hpq hqk] at hall
    exact .stopped (hsame ▸ hk) hb hall hs

/-- Collecting pushes every token before the stop, unless a counter ends before it or at it. -/
theorem collect_cases (hl : l.cursor = .behind source p) (hp : p ≤ source.size)
    (hb : Boundary source.toList p) (hh : l.halted = false)
    (hc : Position.Countable source.toList p) :
    (Position.Countable source.toList
        (firstFrom l.config.unknownChars.stops source.toList p + 1) ∧
      ∃ r m, l.collect = .ok (r, m) ∧ Collected source p l r m) ∨
    (¬ Position.Countable source.toList
        (firstFrom l.config.unknownChars.stops source.toList p + 1) ∧
      l.collect = .error .positionOverflow) := by
  -- every token leaves fewer bytes behind
  induction hlen : source.size - p using Nat.strong_induction_on generalizing p l with
  | _ len ih =>
  rcases seek_cases hl hp hb hc with ⟨r, m, hseek, hsought, hcount⟩ | ⟨hseek, hover⟩
  case inr =>
    rw [← nextToken_of_not_halted hh] at hseek
    exact .inr ⟨hover, collect_of_fault hseek⟩
  rw [← nextToken_of_not_halted hh] at hseek
  cases hsought with
  | @token t q m hpq hq hbq ht hstop hm =>
    obtain ⟨hof, hstart⟩ := of_gather_eq_singleton ht
    have hlt := hof.placed.start_lt_stop
    have hqs := hof.placed.stop_le_length
    rw [hstop, Array.length_toList] at hqs
    have hsame := hm.firstFrom_eq hpq hq hp
    rw [hm.cursor, Cursor.offset_behind hqs] at hcount
    have hpush := collect_of_token hseek
    rcases ih (source.size - q) (by omega) (hm.push t).cursor hqs hbq (hm.halted.trans hh)
      hcount rfl with ⟨hall, r, m', hcollect, hrest⟩ | ⟨hover, hcollect⟩
    · exact .inl ⟨hsame ▸ hall, r, m', hpush.trans hcollect,
        hrest.of_reads (hm.push t) hpq hq hp ht⟩
    · exact .inr ⟨hsame ▸ hover, hpush.trans hcollect⟩
  | finished hk ht hm =>
    rw [hm.cursor, Cursor.offset_behind le_rfl] at hcount
    exact .inl ⟨hcount.of_length_le (by simp), _, _, collect_of_none hseek, .finished hk (ht ▸ hm)⟩
  | stopped hk hbyte ht hm hs =>
    rw [hs.cursor, Cursor.offset_behind (lt_size_of_getElem? hbyte)] at hcount
    exact .inl ⟨hk.symm ▸ hcount, _, _, collect_of_error hseek, .stopped hk hbyte (ht ▸ hm) hs⟩

/-- The lexer with which a scan begins. -/
def started (l : Lexer) : Lexer := l.rewind.tell (.scanStarted l.cursor.source.size)

theorem scan_of_collect_none (h : l.started.collect = .ok (none, m)) :
    l.scan =
      .ok (.ok m.tokens, m.tell (.scanFinished m.tokens.length m.diagnostics.length)) := by
  change (l.started.collect >>= _) = _
  rw [h]
  rfl

theorem scan_of_collect_some {e : ScanError} (h : l.started.collect = .ok (some e, m)) :
    l.scan = .ok (.error e, m) := by
  change (l.started.collect >>= _) = _
  rw [h]
  rfl

/-- What a scan leads to, whatever the lexer did before. -/
inductive Scanned (source : Array UInt8) (l : Lexer) :
    Except ScanError (Buffer Token) → Lexer → Prop
  | finished {m : Lexer}
      (hk : firstFrom l.config.unknownChars.stops source.toList 0 = source.size)
      (hm : Reads source 0 source.size (gather (tokenAt? source.toList) 0 source.size)
        l.started m) :
      Scanned source l (.ok m.tokens) (m.tell (.scanFinished m.tokens.length m.diagnostics.length))
  | stopped {k : Nat} {b : UInt8} {m m' : Lexer}
      (hk : firstFrom l.config.unknownChars.stops source.toList 0 = k)
      (hb : source.toList[k]? = some b)
      (hm : Reads source 0 k (gather (tokenAt? source.toList) 0 k) l.started m)
      (hs : Stops source k b m m') :
      Scanned source l (.error (stopAt source.toList k b)) m'

theorem scan_of_collect_fault {fault : Fault} (h : l.started.collect = .error fault) :
    l.scan = .error fault := by
  change (l.started.collect >>= _) = _
  rw [h]
  rfl

theorem cursor_started (hl : l.cursor.source = source) :
    l.started.cursor = .behind source 0 := by
  rw [← hl]
  rfl

/-- A scan goes up to the stop, unless a counter ends before it or at it. -/
theorem scan_cases (hl : l.cursor.source = source) :
    (Position.Countable source.toList
        (firstFrom l.config.unknownChars.stops source.toList 0 + 1) ∧
      ∃ r m, l.scan = .ok (r, m) ∧ Scanned source l r m) ∨
    (¬ Position.Countable source.toList
        (firstFrom l.config.unknownChars.stops source.toList 0 + 1) ∧
      l.scan = .error .positionOverflow) := by
  rcases collect_cases (cursor_started hl) (Nat.zero_le _) boundary_zero rfl
    (Position.countable_zero _) with ⟨hc, r, m, hcollect, hm⟩ | ⟨hover, hcollect⟩
  · refine .inl ⟨hc, ?_⟩
    cases hm with
    | finished hk hm =>
      exact ⟨_, _, scan_of_collect_none hcollect, Scanned.finished (l := l) hk hm⟩
    | stopped hk hb hm hs =>
      exact ⟨_, _, scan_of_collect_some hcollect, Scanned.stopped (l := l) hk hb hm hs⟩
  · exact .inr ⟨hover, scan_of_collect_fault hcollect⟩

theorem scan_spec (hl : l.cursor.source = source)
    (hc : Position.Countable source.toList
      (firstFrom l.config.unknownChars.stops source.toList 0 + 1)) :
    ∃ r m, l.scan = .ok (r, m) ∧ Scanned source l r m := by
  rcases scan_cases hl with ⟨_, hscan⟩ | ⟨hover, _⟩
  · exact hscan
  · exact absurd hc hover

namespace Scanned

variable {r : Except ScanError (Buffer Token)}

theorem config_eq (h : Scanned source l r m) : m.config = l.config := by
  cases h with
  | finished hk hm => exact hm.config
  | stopped hk hb hm hs => exact hs.config.trans hm.config

theorem tokens_eq (h : Scanned source l r m) : m.tokens = l.tokens.extend
    (gather (tokenAt? source.toList) 0
      (firstFrom l.config.unknownChars.stops source.toList 0)) := by
  cases h with
  | finished hk hm => rw [hk]; exact hm.tokens
  | stopped hk hb hm hs => rw [hk, hs.tokens]; exact hm.tokens

theorem diagnostics_eq (h : Scanned source l r m) {k : Nat}
    (hk : firstFrom l.config.unknownChars.stops source.toList 0 = k) :
    m.diagnostics.toList = l.diagnostics.toList ++
      (gather (reportAt? l.config.unknownChars source.toList) 0 k ++
        if source.toList[k]? = some quoteByte then
          [(stopAt source.toList k quoteByte).diagnostic] else []) := by
  subst k
  cases h with
  | finished hk hm =>
    have hnone : source.toList[source.size]? = none := by simp
    rw [hk, hnone, if_neg (by simp), List.append_nil]
    exact hm.diagnostics
  | @stopped k b n n' hk hb hm hs =>
    rw [hk, hb, hs.diagnostics, hm.diagnostics, List.append_assoc]
    by_cases hq : b = quoteByte
    · subst b
      rfl
    · rw [if_neg hq, if_neg (by simpa using hq)]
      rfl

theorem cursor_eq (h : Scanned source l r m) : m.cursor = .behind source
    (firstFrom l.config.unknownChars.stops source.toList 0 + 1) := by
  cases h with
  | finished hk hm =>
    rw [hk, Cursor.behind_succ_of_size_le le_rfl]
    exact hm.cursor
  | stopped hk hb hm hs => rw [hk]; exact hs.cursor

/-- A scan succeeds if it reaches the end, and returns all tokens of the lexer. -/
theorem result_eq (h : Scanned source l r m) {k : Nat}
    (hk : firstFrom l.config.unknownChars.stops source.toList 0 = k) :
    r = match source.toList[k]? with
      | none => .ok m.tokens
      | some b => .error (stopAt source.toList k b) := by
  subst k
  cases h with
  | finished hk hm =>
    have hnone : source.toList[source.size]? = none := by simp
    rw [hk, hnone]
    rfl
  | stopped hk hb hm hs => rw [hk, hb]

end Scanned

end Collect

end Lexer
end ArithLexer
