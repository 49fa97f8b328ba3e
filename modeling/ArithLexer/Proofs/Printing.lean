import ArithLexer.Proofs.Concatenation

/-!
# Printed tokens

Tokens are printed by writing down their texts in order, with blanks between
them (`layout`). Two numbers in a row need a blank, or they would be read as
one; nothing else does. Scanning a layout finds the tokens it was made of, each
where its text was put (`gather_layout`), and the tokens of a scan printed with
single spaces are such a layout (`printable_spaced`).
-/

namespace ArithLexer

/-! ### Spellings -/

/-- Whether some bytes are the text of a token of a kind. -/
def TokenKind.Spells (kind : TokenKind) (text : List UInt8) : Prop :=
  match kind with
  | .numericLiteral => text ≠ [] ∧ text.all isDigit = true
  | .stringLiteral => False
  | kind => text = Text.encode kind.text

instance (kind : TokenKind) (text : List UInt8) : Decidable (kind.Spells text) :=
  match kind with
  | .numericLiteral => inferInstanceAs (Decidable (_ ∧ _))
  | .stringLiteral => inferInstanceAs (Decidable False)
  | .plus | .minus | .star | .slash | .openParen | .closeParen =>
    inferInstanceAs (Decidable (_ = _))

section Spellings

variable {policy : Policy} {kind : TokenKind} {text gap : List UInt8} {i : Nat} {b : UInt8}

/-- A text is a run of digits or the one byte that spells a kind. -/
theorem TokenKind.spells_iff : kind.Spells text ↔
    (kind = .numericLiteral ∧ text ≠ [] ∧ ∀ b ∈ text, isDigit b = true) ∨
      ∃ b, text = [b] ∧ ofByte? b = some kind := by
  constructor
  · intro h
    cases kind with
    | numericLiteral => exact .inl ⟨rfl, h.1, List.all_eq_true.mp h.2⟩
    | stringLiteral => exact h.elim
    | plus => exact .inr ⟨0x2B, h, rfl⟩
    | minus => exact .inr ⟨0x2D, h, rfl⟩
    | star => exact .inr ⟨0x2A, h, rfl⟩
    | slash => exact .inr ⟨0x2F, h, rfl⟩
    | openParen => exact .inr ⟨0x28, h, rfl⟩
    | closeParen => exact .inr ⟨0x29, h, rfl⟩
  · rintro (⟨rfl, hne, hdigits⟩ | ⟨b, rfl, hb⟩)
    · exact ⟨hne, List.all_eq_true.mpr hdigits⟩
    · unfold ofByte? at hb
      split_ifs at hb <;> cases hb <;> subst b <;> rfl

theorem plain_of_isBlank (hb : isBlank b = true) :
    isDigit b = false ∧ TokenKind.ofByte? b = none ∧ b ≠ quoteByte ∧ isForeign b = false := by
  have hcases : (((b = 0x09 ∨ b = 0x0A) ∨ b = 0x0C) ∨ b = 0x0D) ∨ b = 0x20 := by
    simpa [isBlank] using hb
  rcases hcases with (((rfl | rfl) | rfl) | rfl) | rfl <;> decide

/-- The bytes of a text are neither reserved nor foreign. -/
theorem TokenKind.Spells.plain (h : kind.Spells text) (hb : b ∈ text) :
    b ≠ quoteByte ∧ isForeign b = false := by
  rcases spells_iff.mp h with ⟨-, -, hdigits⟩ | ⟨c, rfl, hkind⟩
  · have hd := hdigits b hb
    exact ⟨ne_quoteByte_of_isDigit hd, isForeign_of_isDigit hd⟩
  · obtain rfl : b = c := by simpa using hb
    exact ⟨(not_isDigit_of_ofByte? hkind).2, isForeign_of_ofByte? hkind⟩

theorem not_digitAt_of_isBlank (h : ∀ b ∈ gap, isBlank b = true) : digitAt gap i = false := by
  rw [digitAt, Option.any_eq_false]
  intro b hb
  have hplain := plain_of_isBlank (h b (List.mem_of_getElem? hb))
  simp [hplain.1]

/-- A digit in a text makes it a number. -/
theorem TokenKind.Spells.kind_eq (h : kind.Spells text) (hd : digitAt text i = true) :
    kind = .numericLiteral := by
  rcases spells_iff.mp h with ⟨hkind, -, -⟩ | ⟨b, rfl, hkind⟩
  · exact hkind
  · obtain ⟨c, hc, hdigit⟩ := (Option.any_eq_true _ _).mp hd
    obtain rfl : c = b := by simpa using List.mem_of_getElem? hc
    rw [(not_isDigit_of_ofByte? hkind).1] at hdigit
    cases hdigit

theorem gather_tokenAt?_of_isBlank (h : ∀ b ∈ gap, isBlank b = true) :
    gather (tokenAt? gap) 0 gap.length = [] := by
  apply gather_eq_nil
  intro i _ hi
  have hb := List.getElem?_eq_getElem hi
  have hplain := plain_of_isBlank (h _ (List.mem_of_getElem? hb))
  rw [tokenAt?_of_not_isDigit hb hplain.1, hplain.2.1]
  rfl

/-- A text holds the token that it spells and no other. -/
theorem TokenKind.Spells.gather_tokenAt? (h : kind.Spells text) :
    gather (tokenAt? text) 0 text.length = [.between text kind 0 text.length] := by
  rcases spells_iff.mp h with ⟨rfl, hne, hdigits⟩ | ⟨b, rfl, hkind⟩
  · apply gather_digitRun
    constructor
    · exact List.length_pos_iff.mpr hne
    · intro n _ hn
      have hb := List.getElem?_eq_getElem hn
      rw [digitAt_of_getElem? hb]
      exact hdigits _ (List.mem_of_getElem? hb)
    · exact boundary_zero
    · exact not_digitAt_length
  · have hd := (not_isDigit_of_ofByte? hkind).1
    rw [List.length_singleton, gather_succ, tokenAt?_of_not_isDigit (b := b) rfl hd, hkind]
    rfl

end Spellings

/-! ### Layouts -/

/-- A token to be printed, behind some blanks. -/
structure Piece where
  gap : List UInt8
  kind : TokenKind
  text : List UInt8
  deriving DecidableEq, Repr

/-- The pieces in order, and some blanks behind the last. -/
def layout (pieces : List Piece) (last : List UInt8) : List UInt8 :=
  pieces.flatMap (fun p => p.gap ++ p.text) ++ last

/-- Pieces that can be told apart once they are printed. -/
structure Printable (pieces : List Piece) (last : List UInt8) : Prop where
  spells : ∀ p ∈ pieces, p.kind.Spells p.text
  blank : ∀ p ∈ pieces, ∀ b ∈ p.gap, isBlank b = true
  blank_last : ∀ b ∈ last, isBlank b = true
  apart : pieces.IsChain fun p q =>
    p.kind = .numericLiteral → q.kind = .numericLiteral → q.gap ≠ []

section Layouts

variable {policy : Policy} {p : Piece} {pieces : List Piece} {last : List UInt8} {b : UInt8}

@[simp] theorem layout_nil (last : List UInt8) : layout [] last = last := rfl

@[simp] theorem layout_cons (p : Piece) (pieces : List Piece) (last : List UInt8) :
    layout (p :: pieces) last = p.gap ++ (p.text ++ layout pieces last) := by
  simp [layout]

theorem Printable.tail (h : Printable (p :: pieces) last) : Printable pieces last where
  spells q hq := h.spells q (List.mem_cons_of_mem _ hq)
  blank q hq := h.blank q (List.mem_cons_of_mem _ hq)
  blank_last := h.blank_last
  apart := h.apart.of_cons

/-- The bytes of a layout are neither reserved nor foreign. -/
theorem Printable.plain (h : Printable pieces last) (hb : b ∈ layout pieces last) :
    b ≠ quoteByte ∧ isForeign b = false := by
  induction pieces with
  | nil => exact (plain_of_isBlank (h.blank_last b hb)).2.2
  | cons p pieces ih =>
    have hp := List.mem_cons_self (a := p) (l := pieces)
    rw [layout_cons, List.mem_append, List.mem_append] at hb
    rcases hb with hb | hb | hb
    · exact (plain_of_isBlank (h.blank p hp b hb)).2.2
    · exact (h.spells p hp).plain hb
    · exact ih h.tail hb

/-- A layout starts with a digit only if it starts with a number. -/
theorem Printable.exists_of_digitAt (h : Printable pieces last)
    (hd : digitAt (layout pieces last) 0 = true) :
    ∃ q rest, pieces = q :: rest ∧ q.gap = [] ∧ q.kind = .numericLiteral := by
  cases pieces with
  | nil =>
    rw [layout_nil, not_digitAt_of_isBlank h.blank_last] at hd
    cases hd
  | cons q rest =>
    have hq := List.mem_cons_self (a := q) (l := rest)
    have htext : 0 < q.text.length := by
      rcases TokenKind.spells_iff.mp (h.spells q hq) with ⟨-, hne, -⟩ | ⟨b, hb, -⟩
      · exact List.length_pos_iff.mpr hne
      · simp [hb]
    have hgap : q.gap = [] := by
      by_contra hne
      have hlt := List.length_pos_iff.mpr hne
      rw [layout_cons, digitAt_append_left hlt, not_digitAt_of_isBlank (h.blank q hq)] at hd
      cases hd
    rw [layout_cons, hgap, List.nil_append, digitAt_append_left htext] at hd
    exact ⟨q, rest, rfl, hgap, (h.spells q hq).kind_eq hd⟩

/-- No number of a piece goes on behind it. -/
theorem Printable.boundary (h : Printable (p :: pieces) last) :
    Boundary (p.text ++ layout pieces last) p.text.length := by
  rw [boundary_seam_iff]
  rintro ⟨hleft, hright⟩
  have hkind := (h.spells p List.mem_cons_self).kind_eq hleft
  obtain ⟨q, rest, rfl, hgap, hq⟩ := h.tail.exists_of_digitAt hright
  exact (List.isChain_cons_cons.mp h.apart).1 hkind hq hgap

/-- The tokens of a layout are the first piece and the tokens of the rest, moved behind it. -/
theorem Printable.gather_cons (h : Printable (p :: pieces) last) :
    gather (tokenAt? (layout (p :: pieces) last)) 0 (layout (p :: pieces) last).length =
      (Shift.past p.gap).token (.between p.text p.kind 0 p.text.length) ::
        (gather (tokenAt? (layout pieces last)) 0 (layout pieces last).length).map
          ((Shift.past p.gap).token ∘ (Shift.past p.text).token) := by
  have hblank := h.blank p List.mem_cons_self
  have hseam : Boundary (p.gap ++ (p.text ++ layout pieces last)) p.gap.length := by
    rw [boundary_seam_iff]
    rintro ⟨hleft, -⟩
    rw [not_digitAt_of_isBlank hblank] at hleft
    cases hleft
  rw [layout_cons, List.length_append, gather_tokenAt?_append hseam,
    gather_tokenAt?_of_isBlank hblank, List.nil_append, List.length_append,
    gather_tokenAt?_append h.boundary, (h.spells p List.mem_cons_self).gather_tokenAt?,
    List.singleton_append, List.map_cons, List.map_map]

/-- A layout holds a token for each piece, of its kind and with its text, where that was put. -/
theorem Printable.gather_layout (h : Printable pieces last) :
    (gather (tokenAt? (layout pieces last)) 0 (layout pieces last).length).map
        (fun t => (t.kind, t.lexeme.bytes)) = pieces.map (fun p => (p.kind, p.text)) ∧
      ∀ n p, pieces[n]? = some p → ∃ t,
        (gather (tokenAt? (layout pieces last)) 0 (layout pieces last).length)[n]? = some t ∧
          t.span.start = (layout (pieces.take n) p.gap).length := by
  induction pieces with
  | nil =>
    rw [layout_nil, gather_tokenAt?_of_isBlank h.blank_last]
    exact ⟨rfl, by simp⟩
  | cons p pieces ih =>
    obtain ⟨hkinds, hstarts⟩ := ih h.tail
    have htext : p.text.extract 0 p.text.length = p.text := by simp
    rw [h.gather_cons]
    constructor
    · rw [List.map_cons, List.map_cons, List.map_map, ← hkinds]
      simp only [Shift.token, Token.between, htext]
      rfl
    · intro n q hq
      cases n with
      | zero =>
        obtain rfl : p = q := by simpa using hq
        exact ⟨_, rfl, by simp [Shift.token, Shift.span, Shift.past, Token.between]⟩
      | succ n =>
        rw [List.getElem?_cons_succ] at hq
        obtain ⟨t, ht, hstart⟩ := hstarts n q hq
        refine ⟨_, by rw [List.getElem?_cons_succ, List.getElem?_map, ht]; rfl, ?_⟩
        simp [Shift.token, Shift.span, Shift.past, hstart]

end Layouts

/-! ### Tokens with single spaces -/

def space : UInt8 := 0x20

/-- A token to be printed behind a gap. -/
def Token.piece (gap : List UInt8) (t : Token) : Piece := ⟨gap, t.kind, t.lexeme.bytes⟩

/-- Some tokens with a single space between any two of them. -/
def spaced : List Token → List Piece
  | [] => []
  | t :: ts => t.piece [] :: ts.map (Token.piece [space])

section Spaced

variable {text : List UInt8} {t : Token} {ts : List Token} {p : Nat}

theorem map_spaced (ts : List Token) :
    (spaced ts).map (fun p => (p.kind, p.text)) = ts.map fun t => (t.kind, t.lexeme.bytes) := by
  cases ts <;> simp [spaced, Token.piece]

theorem layout_spaced (ts : List Token) :
    layout (spaced ts) [] = [space].intercalate (ts.map (·.lexeme.bytes)) := by
  have hcons : ∀ t ts, layout (spaced (t :: ts)) [] =
      t.lexeme.bytes ++ layout (ts.map (Token.piece [space])) [] := by
    intro t ts
    rw [spaced, layout_cons]
    rfl
  cases ts with
  | nil => rfl
  | cons t ts =>
    induction ts generalizing t with
    | nil => simp [hcons]
    | cons u ts ih =>
      have hrest := ih u
      rw [hcons, List.map_cons] at hrest
      rw [hcons, List.map_cons, layout_cons, List.map_cons, List.map_cons,
        List.intercalate_cons_cons, ← hrest, List.append_assoc]
      rfl

theorem printable_spaced (h : ∀ t ∈ ts, t.kind.Spells t.lexeme.bytes) :
    Printable (spaced ts) [] := by
  have hspace : ∀ b ∈ [space], isBlank b = true := by simp [space, isBlank]
  cases ts with
  | nil => exact ⟨by simp [spaced], by simp [spaced], by simp, .nil⟩
  | cons t ts =>
    constructor
    · intro p hp
      rcases List.mem_cons.mp hp with rfl | hp
      · exact h t List.mem_cons_self
      · obtain ⟨u, hu, rfl⟩ := List.mem_map.mp hp
        exact h u (List.mem_cons_of_mem _ hu)
    · intro p hp
      rcases List.mem_cons.mp hp with rfl | hp
      · simp [Token.piece]
      · obtain ⟨u, hu, rfl⟩ := List.mem_map.mp hp
        exact hspace
    · simp
    · -- every piece but the first has a gap
      have hgap : ∀ q ∈ ts.map (Token.piece [space]), q.gap ≠ [] := by
        intro q hq
        obtain ⟨u, hu, rfl⟩ := List.mem_map.mp hq
        exact List.cons_ne_nil _ _
      apply List.Pairwise.isChain
      apply List.Pairwise.cons
      · intro q hq _ _
        exact hgap q hq
      · exact List.pairwise_of_forall_mem_list fun _ _ q hq _ _ => hgap q hq

/-- The text of a token spells its kind. -/
theorem TokenOf.spells (h : TokenOf text t) : t.kind.Spells t.lexeme.bytes := by
  rw [TokenKind.spells_iff]
  cases h with
  | @number i j hrun =>
    have hlt := hrun.start_lt_stop
    have hle := hrun.stop_le_length
    refine .inl ⟨rfl, ?_, ?_⟩
    · apply List.ne_nil_of_length_pos
      simp only [Token.between, List.extract_eq_take_drop, List.length_take, List.length_drop]
      omega
    · intro b hb
      simp only [Token.between, List.extract_eq_take_drop] at hb
      obtain ⟨n, hn, rfl⟩ := List.mem_iff_getElem.mp hb
      rw [List.length_take, List.length_drop] at hn
      have hdigit := hrun.digits (i + n) (by omega) (by omega)
      rw [digitAt_of_getElem? (List.getElem?_eq_getElem (by omega))] at hdigit
      simpa using hdigit
  | @single i b kind hb hkind => exact .inr ⟨b, extract_succ hb, hkind⟩

theorem TokenOf.length_lexeme (h : TokenOf text t) :
    t.lexeme.bytes.length = t.span.stop - t.span.start := by
  have hle := h.placed.stop_le_length
  rw [h.bytes_eq, List.extract_eq_take_drop, List.length_take, List.length_drop]
  omega

/-- The tokens of a stretch take at most twice its room once a space is put before each. -/
theorem length_layout_le (hp : p ≤ text.length)
    (hof : ∀ t ∈ ts, TokenOf text t ∧ p ≤ t.span.start)
    (hdisjoint : ts.Pairwise fun t u => t.span.stop ≤ u.span.start) :
    (layout (ts.map (Token.piece [space])) []).length + 2 * p ≤ 2 * text.length := by
  induction ts generalizing p with
  | nil =>
    simp only [List.map_nil, layout_nil, List.length_nil]
    omega
  | cons t ts ih =>
    obtain ⟨ht, hstart⟩ := hof t List.mem_cons_self
    have hlt := ht.placed.start_lt_stop
    have hlength := ht.length_lexeme
    obtain ⟨hbehind, hrest⟩ := List.pairwise_cons.mp hdisjoint
    have hle := ih ht.placed.stop_le_length
      (fun u hu => ⟨(hof u (List.mem_cons_of_mem _ hu)).1, hbehind u hu⟩) hrest
    simp only [List.map_cons, layout_cons, Token.piece, List.length_append, List.length_singleton]
    omega

theorem length_layout_spaced_le (h : Tokenizes text ts) :
    (layout (spaced ts) []).length ≤ 2 * text.length := by
  have hle := length_layout_le (Nat.zero_le _)
    (fun t ht => ⟨(h.mem_iff t).mp ht, Nat.zero_le _⟩) h.disjoint
  cases ts with
  | nil => exact Nat.zero_le _
  | cons t ts =>
    simp only [spaced, List.map_cons, layout_cons, Token.piece, List.length_append,
      List.length_singleton, List.length_nil] at hle ⊢
    omega

end Spaced

/-! ### Scans of layouts -/

section Scans

variable {pieces : List Piece} {last : List UInt8}

/-- A scan passes over a whole layout and tells of nothing. -/
theorem Printable.scan_eq (h : Printable pieces last) (config : Config)
    (hs : (layout pieces last).length ≤ 2 ^ 32 - 2) :
    ∃ m, (Lexer.withConfig (layout pieces last).toArray config).scan = .ok (.ok m.tokens, m) ∧
      m.diagnostics.toList = [] ∧
      m.tokens.toList =
        gather (tokenAt? (layout pieces last)) 0 (layout pieces last).length := by
  have hsize : (layout pieces last).toArray.size ≤ 2 ^ 32 - 2 := hs
  obtain ⟨r, m, k, hscan, hk, htokens, hdiagnostics, -, hresult⟩ :=
    Lexer.scan_contents config hsize
  have hend : k = (layout pieces last).length := by
    rw [hk, stopIndex, List.findIdx_eq_length]
    intro b hb
    obtain ⟨hq, hf⟩ := h.plain hb
    exact stops_of_not_isForeign hq hf
  subst hend
  have hok : r = .ok m.tokens := by
    rw [hresult, List.getElem?_eq_none (Nat.le_refl _)]
  refine ⟨m, hok ▸ hscan, ?_, htokens⟩
  rw [hdiagnostics]
  apply gather_eq_nil
  intro i _ _
  cases hb : (layout pieces last)[i]? with
  | none => exact noticeAt?_of_none hb
  | some b =>
    obtain ⟨hq, hf⟩ := h.plain (List.mem_of_getElem? hb)
    rw [noticeAt?_of_ne (by simpa [hb] using hq)]
    exact reportAt?_of_not_isForeign hb hf

/-- Scanning undoes printing: whatever the blanks between the pieces, as long as two numbers in
a row have one, the scan finds the pieces and nothing else, each where it was put. And printing
undoes scanning up to the blanks: the texts of the tokens of a scan, joined by single spaces,
scan to the same kinds and texts again. -/
theorem scan_layout :
    (∀ (config : Config) (pieces : List Piece) (last : List UInt8), Printable pieces last →
      (layout pieces last).length ≤ 2 ^ 32 - 2 →
      ∃ m, (Lexer.withConfig (layout pieces last).toArray config).scan = .ok (.ok m.tokens, m) ∧
        m.diagnostics.toList = [] ∧
        m.tokens.toList.map (fun t => (t.kind, t.lexeme.bytes)) =
          pieces.map (fun p => (p.kind, p.text)) ∧
        ∀ n p, pieces[n]? = some p → ∃ t, m.tokens.toList[n]? = some t ∧
          t.span.start = (layout (pieces.take n) p.gap).length) ∧
    ∀ (source : Array UInt8) (config config' : Config) (stored : Buffer Token) (l : Lexer),
      source.size ≤ 2 ^ 31 - 1 →
      (Lexer.withConfig source config).scan = .ok (.ok stored, l) →
      ∃ m, (Lexer.withConfig
          ([space].intercalate (stored.toList.map (·.lexeme.bytes))).toArray config').scan =
            .ok (.ok m.tokens, m) ∧
        m.tokens.toList.map (fun t => (t.kind, t.lexeme.bytes)) =
          stored.toList.map (fun t => (t.kind, t.lexeme.bytes)) := by
  constructor
  · intro config pieces last h hs
    obtain ⟨m, hscan, hdiagnostics, htokens⟩ := h.scan_eq config hs
    obtain ⟨hkinds, hstarts⟩ := h.gather_layout
    exact ⟨m, hscan, hdiagnostics, htokens ▸ hkinds, htokens ▸ hstarts⟩
  · intro source config config' stored l hs hscan
    have hsize : source.size ≤ 2 ^ 32 - 2 := by omega
    obtain ⟨r, m, hscan', hm⟩ := scan_withConfig config hsize
    rw [hscan] at hscan'
    cases hscan'
    have hstored : stored = l.tokens := by
      have hresult := result_of_scanned hm
      split at hresult <;> cases hresult
      rfl
    have htokenizes := tokenizes_of_scanned hm
    rw [← hstored] at htokenizes
    have hprintable := printable_spaced fun t ht => ((htokenizes.mem_iff t).mp ht).spells
    have hlength := length_layout_spaced_le htokenizes
    have htake := List.length_take_le' (stopIndex config.unknownChars source.toList) source.toList
    have hsize := source.length_toList
    obtain ⟨n, hscan, -, htokens⟩ := hprintable.scan_eq config' (by omega)
    rw [layout_spaced] at hscan
    refine ⟨n, hscan, ?_⟩
    rw [htokens, hprintable.gather_layout.1, map_spaced]

/-- The source `12+3`, line feed, `4 ` under the policy that rejects, and `12 + 3 4`. -/
theorem scan_layout_of_sum :
    ∃ m n, (Lexer.withConfig #[0x31, 0x32, 0x2B, 0x33, 0x0A, 0x34, 0x20] ⟨.reject, 4⟩).scan =
        .ok (.ok m.tokens, m) ∧
      m.diagnostics.toList = [] ∧
      m.tokens.toList.map (fun t => (t.kind, t.lexeme.bytes)) =
        [(.numericLiteral, [0x31, 0x32]), (.plus, [0x2B]), (.numericLiteral, [0x33]),
          (.numericLiteral, [0x34])] ∧
      (∃ t, m.tokens.toList[3]? = some t ∧ t.span.start = 5) ∧
      (Lexer.withConfig #[0x31, 0x32, 0x20, 0x2B, 0x20, 0x33, 0x20, 0x34] .default).scan =
        .ok (.ok n.tokens, n) ∧
      n.tokens.toList.map (fun t => (t.kind, t.lexeme.bytes)) =
        m.tokens.toList.map (fun t => (t.kind, t.lexeme.bytes)) := by
  let pieces : List Piece := [⟨[], .numericLiteral, [0x31, 0x32]⟩, ⟨[], .plus, [0x2B]⟩,
    ⟨[], .numericLiteral, [0x33]⟩, ⟨[0x0A], .numericLiteral, [0x34]⟩]
  have hprintable : Printable pieces [0x20] := by
    constructor
    · decide
    · simp [pieces, isBlank]
    · simp [isBlank]
    · decide
  obtain ⟨m, hscan, hdiagnostics, hkinds, hstarts⟩ :=
    scan_layout.1 ⟨.reject, 4⟩ pieces [0x20] hprintable (by decide)
  obtain ⟨n, hscan', hkinds'⟩ :=
    scan_layout.2 _ ⟨.reject, 4⟩ .default m.tokens m (by decide) hscan
  have htexts : m.tokens.toList.map (·.lexeme.bytes) = [[0x31, 0x32], [0x2B], [0x33], [0x34]] := by
    simpa [Function.comp_def, pieces] using congrArg (List.map Prod.snd) hkinds
  rw [htexts] at hscan'
  exact ⟨m, n, hscan, hdiagnostics, hkinds, hstarts 3 _ rfl, hscan', hkinds'⟩

end Scans

end ArithLexer
