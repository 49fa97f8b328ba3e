import ArithLexer.Proofs.Pulling

/-!
# Lexers that agree

Two lexers of one source agree when they stand at the same place, hold the same
tokens and stop at the same bytes (`Agree`). Their settings may differ in what
they tell of the bytes they pass over; if they do not, the diagnostics agree as
well. One operation has the same answer on both and keeps the agreement
(`perform_agree`), and so does a history (`history_agree`). The answers are
compared without the capacity of a buffer in them, and the logs are not compared.
-/

namespace ArithLexer
namespace Lexer

/-- An answer without the capacity of the buffer in it. -/
def Outcome.bare : Outcome → Outcome
  | .scanned (.ok buffer) => .scanned (.ok ⟨buffer.items, 0⟩)
  | outcome => outcome

/-- Two sound lexers of one source that answer alike, and tell alike of what they pass over
if that is asked for. -/
structure Agree (source : Array UInt8) (told : Prop) (l m : Lexer) : Prop where
  left : Sound source l
  right : Sound source m
  cursor : l.cursor = m.cursor
  halted : l.halted = m.halted
  tokens : l.tokens.toList = m.tokens.toList
  stops : l.config.unknownChars.stops = m.config.unknownChars.stops
  policy : told → l.config.unknownChars = m.config.unknownChars
  diagnostics : told → l.diagnostics.toList = m.diagnostics.toList

section Pulls

variable {source : Array UInt8} {told : Prop} {l m l' m' : Lexer} {x y : Item}

theorem Agree.outstanding_eq (h : Agree source told l m) :
    l.outstanding source = m.outstanding source := by
  rw [outstanding, outstanding, h.halted, h.cursor, h.stops]

theorem Agree.finalCursor_eq (h : Agree source told l m) :
    l.finalCursor source = m.finalCursor source := by
  rw [finalCursor, finalCursor, stopOffset, stopOffset, h.halted, h.cursor, h.stops]

/-- Where both still have the same to tell, they have told the same. -/
theorem diagnostics_eq_of_final (hcursor : l.cursor = m.cursor) (hhalted : l.halted = m.halted)
    (hpolicy : l.config.unknownChars = m.config.unknownChars) :
    l.finalDiagnostics source = m.finalDiagnostics source ↔
      l.diagnostics.toList = m.diagnostics.toList := by
  rw [finalDiagnostics, finalDiagnostics, stopOffset, stopOffset, hhalted, hcursor, hpolicy]
  exact List.append_left_inj _

/-- Pulls yield the same and keep the agreement. -/
theorem Agree.of_yields (h : Agree source told l m) (hl : Sound source l') (hm : Sound source m')
    (hx : Yields source l x l') (hy : Yields source m y m') :
    x = y ∧ Agree source told l' m' := by
  have hitem : x = y := by rw [hx.item_eq, hy.item_eq, h.outstanding_eq]
  subst y
  have hcursor : l'.cursor = m'.cursor := by
    rw [hx.cursor, hy.cursor]
    rcases x with _ | found | t
    · exact h.finalCursor_eq
    · exact h.finalCursor_eq
    · rfl
  have hhalted : l'.halted = m'.halted := by
    rw [hx.halted, hy.halted]
    rcases x with _ | found | t
    · exact h.halted
    · rfl
    · exact h.halted
  have hpolicy : told → l'.config.unknownChars = m'.config.unknownChars := by
    rw [hx.config, hy.config]
    exact h.policy
  refine ⟨rfl, hl, hm, hcursor, hhalted, ?_, ?_, hpolicy, fun ht => ?_⟩
  · rw [hx.tokens, hy.tokens]
    exact h.tokens
  · rw [hx.config, hy.config]
    exact h.stops
  · rw [← diagnostics_eq_of_final hcursor hhalted (hpolicy ht), hx.finalDiagnostics_eq,
      hy.finalDiagnostics_eq, diagnostics_eq_of_final h.cursor h.halted (h.policy ht)]
    exact h.diagnostics ht

theorem itemOf_injective : Function.Injective itemOf := by
  intro r r' h
  rcases r with found | _ | t <;> rcases r' with found' | _ | t' <;> cases h <;> rfl

theorem nextToken_agree (hc : ∀ n, Position.Countable source.toList n)
    (h : Agree source told l m) :
    ∃ r l' m', l.nextToken = .ok (r, l') ∧ m.nextToken = .ok (r, m') ∧
      Agree source told l' m' := by
  obtain ⟨r, l', hl, hsound, hx⟩ := nextToken_yields hc h.left
  obtain ⟨r', m', hm, hsound', hy⟩ := nextToken_yields hc h.right
  obtain ⟨hitem, hagree⟩ := h.of_yields hsound hsound' hx hy
  rw [← itemOf_injective hitem] at hm
  exact ⟨r, l', m', hl, hm, hagree⟩

theorem nextMany_agree (hc : ∀ n, Position.Countable source.toList n) (count : Nat)
    (h : Agree source told l m) :
    ∃ items l' m', l.iter.nextMany count = .ok (items, l'.iter) ∧
      m.iter.nextMany count = .ok (items, m'.iter) ∧ Agree source told l' m' := by
  induction count generalizing l m with
  | zero => exact ⟨[], l, m, rfl, rfl, h⟩
  | succ count ih =>
    have hleft : Sound source l.iter.lexer := h.left
    have hright : Sound source m.iter.lexer := h.right
    obtain ⟨item, it, hl, hsound, hx⟩ := next_yields hc hleft
    obtain ⟨item', it', hm, hsound', hy⟩ := next_yields hc hright
    obtain ⟨rfl, hagree⟩ := h.of_yields hsound hsound' hx hy
    obtain ⟨items, l'', m'', hrest, hrest', hagree'⟩ := ih hagree
    exact ⟨item :: items, l'', m'', TokenIter.nextMany_succ hl hrest,
      TokenIter.nextMany_succ hm hrest', hagree'⟩

end Pulls

/-! ### Scans -/

section Scans

variable {source : Array UInt8} {told : Prop} {l m l' m' : Lexer}
  {r r' : Except ScanError (Buffer Token)}

/-- A scan that stops halts the lexer. -/
theorem Scanned.halted_eq (h : Scanned source l r m) : m.halted =
    (source.toList[firstFrom l.config.unknownChars.stops source.toList 0]?).isSome := by
  cases h with
  | finished hk hm =>
    have hnone : source.toList[source.size]? = none := by simp
    rw [hk, hnone]
    exact hm.halted
  | stopped hk hb hm hs =>
    rw [hk, hb]
    exact hs.halted

theorem Agree.of_scanned (h : Agree source told l m) (hl : Sound source l')
    (hm : Sound source m') (hx : Scanned source l r l') (hy : Scanned source m r' m') :
    (Outcome.scanned r).bare = (Outcome.scanned r').bare ∧ Agree source told l' m' := by
  have htokens : l'.tokens.toList = m'.tokens.toList := by
    rw [hx.tokens_eq, hy.tokens_eq, Buffer.toList_extend, Buffer.toList_extend, h.tokens, h.stops]
  refine ⟨?_, hl, hm, ?_, ?_, htokens, ?_, ?_, fun ht => ?_⟩
  · have hitems : l'.tokens.items = m'.tokens.items := Array.toList_inj.mp htokens
    rw [hx.result_eq rfl, hy.result_eq rfl, h.stops]
    split
    · simp [Outcome.bare, hitems]
    · rfl
  · rw [hx.cursor_eq, hy.cursor_eq, h.stops]
  · rw [hx.halted_eq, hy.halted_eq, h.stops]
  · rw [hx.config_eq, hy.config_eq]
    exact h.stops
  · rw [hx.config_eq, hy.config_eq]
    exact h.policy
  · rw [hx.notices_eq rfl, hy.notices_eq rfl, h.diagnostics ht, h.policy ht]

theorem scan_agree (hc : ∀ n, Position.Countable source.toList n) (h : Agree source told l m) :
    ∃ r l' r' m', l.scan = .ok (r, l') ∧ m.scan = .ok (r', m') ∧ Agree source told l' m' ∧
      (Outcome.scanned r).bare = (Outcome.scanned r').bare := by
  obtain ⟨r, l', hl, hsound, hx⟩ := scan_scanned hc h.left
  obtain ⟨r', m', hm, hsound', hy⟩ := scan_scanned hc h.right
  obtain ⟨hbare, hagree⟩ := h.of_scanned hsound hsound' hx hy
  exact ⟨r, l', r', m', hl, hm, hagree, hbare⟩

end Scans

/-! ### Histories -/

section Histories

variable {source : Array UInt8} {told : Prop} {l m : Lexer}

theorem scanLexeme_agree (hc : ∀ n, Position.Countable source.toList n)
    (h : Agree source told l m) :
    ∃ found l' m', l.scanLexeme = .ok (found, l') ∧ m.scanLexeme = .ok (found, m') ∧
      Agree source told l' m' := by
  obtain ⟨found, l', hl, hx⟩ := (scanLexeme_answers h.left).exists_ok hc
  obtain ⟨found', m', hm, hy⟩ := (scanLexeme_answers h.right).exists_ok hc
  -- reading a lexeme sees and changes nothing but the cursor
  obtain ⟨⟨_, c⟩, hread, hl'⟩ := bind_eq_ok.mp hl
  obtain ⟨⟨_, c'⟩, hread', hm'⟩ := bind_eq_ok.mp hm
  rw [h.cursor, hread'] at hread
  cases hread
  cases hl'
  cases hm'
  exact ⟨_, _, _, hl, hm, hx.sound, hy.sound, rfl, h.halted, h.tokens, h.stops, h.policy,
    h.diagnostics⟩

theorem Agree.release (h : Agree source told l m) :
    Agree source told l.release m.release where
  left := sound_release h.left
  right := sound_release h.right
  cursor := congrArg Cursor.reset h.cursor
  halted := rfl
  tokens := rfl
  stops := h.stops
  policy := h.policy
  diagnostics _ := rfl

theorem Agree.takeDiagnostics (h : Agree source told l m) :
    Agree source told l.takeDiagnostics.2 m.takeDiagnostics.2 where
  left := sound_takeDiagnostics h.left
  right := sound_takeDiagnostics h.right
  cursor := h.cursor
  halted := h.halted
  tokens := h.tokens
  stops := h.stops
  policy := h.policy
  diagnostics _ := rfl

/-- An operation has the same answer on lexers that agree, and they agree after it. -/
theorem perform_agree (hc : ∀ n, Position.Countable source.toList n)
    (h : Agree source told l m) (op : Operation) (hop : op = .takeDiagnostics → told) :
    ∃ o l' o' m', l.perform op = .ok (o, l') ∧ m.perform op = .ok (o', m') ∧
      o.bare = o'.bare ∧ Agree source told l' m' := by
  cases op with
  | scan =>
    obtain ⟨r, l', r', m', hl, hm, hagree, hbare⟩ := scan_agree hc h
    exact ⟨_, l', _, m', by rw [perform, hl]; rfl, by rw [perform, hm]; rfl, hbare, hagree⟩
  | nextToken =>
    obtain ⟨r, l', m', hl, hm, hagree⟩ := nextToken_agree hc h
    exact ⟨_, l', _, m', by rw [perform, hl]; rfl, by rw [perform, hm]; rfl, rfl, hagree⟩
  | iterate count =>
    obtain ⟨items, l', m', hl, hm, hagree⟩ := nextMany_agree hc count h
    exact ⟨_, l', _, m', by rw [perform, hl]; rfl, by rw [perform, hm]; rfl, rfl, hagree⟩
  | scanLexeme =>
    obtain ⟨found, l', m', hl, hm, hagree⟩ := scanLexeme_agree hc h
    exact ⟨_, l', _, m', by rw [perform, hl]; rfl, by rw [perform, hm]; rfl, rfl, hagree⟩
  | release => exact ⟨_, _, _, _, rfl, rfl, rfl, h.release⟩
  | takeDiagnostics =>
    refine ⟨_, _, _, _, rfl, rfl, ?_, h.takeDiagnostics⟩
    exact congrArg (Outcome.bare ∘ Outcome.taken) (h.diagnostics (hop rfl))

theorem history_agree (hc : ∀ n, Position.Countable source.toList n)
    (h : Agree source told l m) (ops : List Operation)
    (hops : Operation.takeDiagnostics ∈ ops → told) :
    ∃ xs l' ys m', history ops l = .ok (xs, l') ∧ history ops m = .ok (ys, m') ∧
      xs.map Outcome.bare = ys.map Outcome.bare ∧ Agree source told l' m' := by
  induction ops generalizing l m with
  | nil => exact ⟨[], l, [], m, rfl, rfl, rfl, h⟩
  | cons op ops ih =>
    have hop : op = .takeDiagnostics → told := fun he => hops (by simp [he])
    obtain ⟨o, l', o', m', hl, hm, hbare, hagree⟩ := perform_agree hc h op hop
    obtain ⟨xs, l'', ys, m'', hxs, hys, hbares, hagree'⟩ :=
      ih hagree fun he => hops (by simp [he])
    refine ⟨o :: xs, l'', o' :: ys, m'', history_cons hl hxs, history_cons hm hys, ?_, hagree'⟩
    rw [List.map_cons, List.map_cons, hbare, hbares]

end Histories

end Lexer
end ArithLexer
