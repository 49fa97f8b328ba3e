import ArithLexer.Proofs.Reading

/-!
# Scans

A scan of a fresh lexer is told by its source and settings alone, up to the
first byte that the settings stop at. `scan_tokenizes` says which tokens it
appends and when it succeeds, `scan_reports` which error it returns and which
diagnostics it emits.
-/

namespace ArithLexer

/-- Where a scan stops: at the first byte that the policy stops at, or at the end. -/
def stopIndex (policy : Policy) (text : List UInt8) : Nat := text.findIdx policy.stops

section Fresh

variable {source : Array UInt8} {policy : Policy} {config : Config}

theorem firstFrom_eq_stopIndex :
    firstFrom policy.stops source.toList 0 = stopIndex policy source.toList := firstFrom_zero

theorem stopIndex_le_length (policy : Policy) (text : List UInt8) :
    stopIndex policy text ≤ text.length := List.findIdx_le_length

theorem not_digitAt_stopIndex (policy : Policy) (text : List UInt8) :
    digitAt text (stopIndex policy text) = false := by
  rw [stopIndex, ← firstFrom_zero]
  exact not_digitAt_firstFrom_stops

theorem stopIndex_eq_size_iff : stopIndex policy source.toList = source.size ↔
    source.toList[stopIndex policy source.toList]? = none := by
  have hle := stopIndex_le_length policy source.toList
  rw [List.getElem?_eq_none_iff]
  rw [Array.length_toList] at hle ⊢
  omega

theorem scan_withConfig (config : Config) (hs : source.size ≤ 2 ^ 32 - 2) :
    ∃ r m, (Lexer.withConfig source config).scan = .ok (r, m) ∧
      Lexer.Scanned source (Lexer.withConfig source config) r m :=
  Lexer.scan_spec rfl (countable_of_size_le hs _)

theorem tokenizes_of_scanned {r : Except ScanError (Buffer Token)} {m : Lexer}
    (h : Lexer.Scanned source (Lexer.withConfig source config) r m) :
    Tokenizes (source.toList.take (stopIndex config.unknownChars source.toList))
      m.tokens.toList := by
  have htokens := congrArg Buffer.toList h.tokens_eq
  rw [Buffer.toList_extend] at htokens
  have hempty : (Lexer.withConfig source config).tokens.toList = [] :=
    Buffer.toList_withCapacity _
  rw [htokens, hempty, List.nil_append]
  have hpolicy : (Lexer.withConfig source config).config.unknownChars = config.unknownChars := rfl
  rw [hpolicy, firstFrom_eq_stopIndex]
  exact tokenizes_take (not_digitAt_stopIndex _ _) (stopIndex_le_length _ _)

theorem result_of_scanned {r : Except ScanError (Buffer Token)} {m : Lexer}
    (h : Lexer.Scanned source (Lexer.withConfig source config) r m) :
    r = match source.toList[stopIndex config.unknownChars source.toList]? with
      | none => .ok m.tokens
      | some b =>
        .error (stopAt source.toList (stopIndex config.unknownChars source.toList) b) :=
  h.result_eq firstFrom_eq_stopIndex

/-- The tokens that a scan appends are those of the source before the stop: each maximal run
of digits is a number, each operator and each parenthesis a token of its own. The scan
succeeds if the stop is the end. -/
theorem scan_tokenizes (source : Array UInt8) (config : Config)
    (hs : source.size ≤ 2 ^ 32 - 2) :
    ∃ result m, (Lexer.withConfig source config).scan = .ok (result, m) ∧
      Tokenizes (source.toList.take (stopIndex config.unknownChars source.toList))
        m.tokens.toList ∧
      m.tokens.toList.Pairwise (fun t u => t.span.stop ≤ u.span.start) ∧
      (∀ t ∈ m.tokens.toList, t.kind ≠ .stringLiteral ∧ t.span.start < t.span.stop ∧
        t.lexeme.bytes = source.toList.extract t.span.start t.span.stop) ∧
      (∀ i b, i < stopIndex config.unknownChars source.toList → source.toList[i]? = some b →
        isDigit b = true ∨ (TokenKind.ofByte? b).isSome = true →
        ∃ t ∈ m.tokens.toList, t.span.contains i = true) ∧
      ((∃ tokens, result = .ok tokens) ↔
        stopIndex config.unknownChars source.toList = source.size) ∧
      ∀ tokens, result = .ok tokens → tokens = m.tokens := by
  obtain ⟨r, m, hscan, hm⟩ := scan_withConfig config hs
  have htokenizes := tokenizes_of_scanned hm
  have hresult := result_of_scanned hm
  have hle := stopIndex_le_length config.unknownChars source.toList
  have hk := not_digitAt_stopIndex config.unknownChars source.toList
  refine ⟨r, m, hscan, htokenizes, htokenizes.disjoint, ?_, ?_, ?_, ?_⟩
  · intro t ht
    have hof := ((tokenOf_take_iff hk hle).mp ((htokenizes.mem_iff t).mp ht)).1
    exact ⟨hof.kind_ne, hof.placed.start_lt_stop, hof.bytes_eq⟩
  · intro i b hi hb hkind
    obtain ⟨t, ht, hcontains⟩ := exists_tokenOf hb hkind
    refine ⟨t, (htokenizes.mem_iff t).mpr ((tokenOf_take_iff hk hle).mpr ⟨ht, ?_⟩), hcontains⟩
    have hstart := ((Span.contains_iff _ _).mp hcontains).1
    omega
  · rw [stopIndex_eq_size_iff, hresult]
    constructor
    · rintro ⟨tokens, h⟩
      split at h
      · assumption
      · cases h
    · intro hnone
      rw [hnone]
      exact ⟨m.tokens, rfl⟩
  · intro tokens h
    rw [hresult] at h
    split at h <;> cases h
    rfl

/-- The source `12+@7` under the policy that rejects. -/
theorem scan_tokenizes_up_to_rejected :
    ∃ result m, (Lexer.withConfig #[0x31, 0x32, 0x2B, 0x40, 0x37] ⟨.reject, 4⟩).scan =
        .ok (result, m) ∧
      m.tokens.toList =
        [⟨.numericLiteral, ⟨[0x31, 0x32]⟩, ⟨0, 2, 1, 1⟩⟩, ⟨.plus, ⟨[0x2B]⟩, ⟨2, 3, 1, 3⟩⟩] ∧
      ¬ ∃ tokens, result = .ok tokens := by
  obtain ⟨result, m, hscan, htokens, -, -, -, hok, -⟩ :=
    scan_tokenizes #[0x31, 0x32, 0x2B, 0x40, 0x37] ⟨.reject, 4⟩ (by decide)
  refine ⟨result, m, hscan, ?_, ?_⟩
  · have hgather := tokenizes_take (not_digitAt_stopIndex .reject [0x31, 0x32, 0x2B, 0x40, 0x37])
      (stopIndex_le_length _ _)
    rw [htokens.unique hgather]
    decide
  · rw [hok]
    decide

theorem diagnostics_of_scanned {r : Except ScanError (Buffer Token)} {m : Lexer}
    (h : Lexer.Scanned source (Lexer.withConfig source config) r m) :
    m.diagnostics.toList =
      gather (reportAt? config.unknownChars source.toList) 0
          (stopIndex config.unknownChars source.toList) ++
        if source.toList[stopIndex config.unknownChars source.toList]? = some quoteByte then
          [(stopAt source.toList (stopIndex config.unknownChars source.toList)
            quoteByte).diagnostic]
        else [] :=
  h.diagnostics_eq firstFrom_eq_stopIndex

/-- What is reported up to an offset, under the one policy that asks for it. -/
theorem gather_reportAt? (text : List UInt8) (k : Nat) :
    gather (reportAt? policy text) 0 k =
      if policy = .report then
        (List.range k).filterMap fun i =>
          (text[i]?.filter isForeign).map fun b => (unexpectedAt text i b).diagnostic
      else [] := by
  rw [gather_zero]
  by_cases hpolicy : policy = .report
  · rw [if_pos hpolicy]
    refine List.filterMap_congr fun i _ => ?_
    rw [reportAt?, if_pos hpolicy]
  · rw [if_neg hpolicy, List.filterMap_eq_nil_iff]
    intro i _
    rw [reportAt?, if_neg hpolicy]

theorem toNat_ofNat_toNat (b : UInt8) : (Char.ofNat b.toNat).toNat = b.toNat := by
  have hlt := b.toNat_lt
  have hvalid : b.toNat.isValidChar := Or.inl (by omega)
  rw [Char.ofNat, dif_pos hvalid]
  rfl

theorem exists_stops_iff : (∃ b ∈ source.toList, policy.stops b = true) ↔
    ∃ b, source.toList[stopIndex policy source.toList]? = some b := by
  rw [← List.findIdx_lt_length, stopIndex]
  constructor
  · intro h
    exact ⟨_, List.getElem?_eq_getElem h⟩
  · rintro ⟨b, hb⟩
    exact (List.getElem?_eq_some_iff.mp hb).1

/-- A scan fails if there is a byte to stop at, and the error is the first such byte. Before
it, every byte that starts no token is reported if the policy asks for that; a double quote
is reported in any case. -/
theorem scan_reports (source : Array UInt8) (config : Config)
    (hs : source.size ≤ 2 ^ 32 - 2) :
    ∃ result m k, (Lexer.withConfig source config).scan = .ok (result, m) ∧
      k = stopIndex config.unknownChars source.toList ∧
      ((∃ e, result = .error e) ↔
        ∃ b ∈ source.toList, config.unknownChars.stops b = true) ∧
      (∀ b, source.toList[k]? = some b →
        (b = quoteByte → result =
          .error (.unsupported .stringLiteral (.between source.toList k (k + 1)))) ∧
        (b ≠ quoteByte → ∃ character : Char, character.toNat = b.toNat ∧ result =
          .error (.unexpectedCharacter character (.between source.toList k (k + 1)))) ∧
        m.cursor = .behind source (k + 1) ∧ m.cursor.offset = k + 1) ∧
      Tokenizes (source.toList.take k) m.tokens.toList ∧
      m.diagnostics.toList =
        (if config.unknownChars = .report then
          (List.range k).filterMap fun i =>
            (source.toList[i]?.filter isForeign).map fun b =>
              { severity := .error
                code := some .unexpectedCharacter
                message := (unexpectedAt source.toList i b).reason
                span := .between source.toList i (i + 1) }
        else []) ++
        if source.toList[k]? = some quoteByte then
          [{ severity := .error
             code := some .unsupported
             message := "string literals are not implemented"
             span := .between source.toList k (k + 1) }]
        else [] := by
  obtain ⟨r, m, hscan, hm⟩ := scan_withConfig config hs
  have hresult := result_of_scanned hm
  have hcursor : m.cursor = .behind source (stopIndex config.unknownChars source.toList + 1) := by
    rw [← firstFrom_eq_stopIndex]
    exact hm.cursor_eq
  refine ⟨r, m, _, hscan, rfl, ?_, ?_, tokenizes_of_scanned hm, ?_⟩
  · rw [exists_stops_iff, hresult]
    constructor
    · rintro ⟨e, h⟩
      split at h
      · cases h
      · exact ⟨_, ‹_›⟩
    · rintro ⟨b, hb⟩
      rw [hb]
      exact ⟨_, rfl⟩
  · intro b hb
    rw [hb] at hresult
    have hlt := lt_size_of_getElem? hb
    have herror : r = .error (stopAt source.toList
        (stopIndex config.unknownChars source.toList) b) := hresult
    refine ⟨fun hq => ?_, fun hq => ⟨_, toNat_ofNat_toNat b, ?_⟩, hcursor, ?_⟩
    · rw [herror, stopAt, if_pos hq]
    · rw [herror, stopAt, if_neg hq]
      rfl
    · rw [hcursor, Cursor.offset_behind hlt]
  · rw [diagnostics_of_scanned hm, gather_reportAt?]
    rfl

theorem scan_reports_up_to_quote :
    ∃ result m, (Lexer.withConfig #[0x40, 0x0A, 0x22, 0x40] ⟨.report, 4⟩).scan =
        .ok (result, m) ∧
      result = .error (.unsupported .stringLiteral ⟨2, 3, 2, 1⟩) ∧
      m.cursor.offset = 3 ∧
      m.diagnostics.toList.map (fun d => (d.code, d.span)) =
        [(some .unexpectedCharacter, ⟨0, 1, 1, 1⟩), (some .unsupported, ⟨2, 3, 2, 1⟩)] := by
  obtain ⟨result, m, k, hscan, hk, -, hstop, -, hdiagnostics⟩ :=
    scan_reports #[0x40, 0x0A, 0x22, 0x40] ⟨.report, 4⟩ (by decide)
  have hkey : k = 2 := by
    rw [hk]
    decide
  subst hkey
  obtain ⟨hquote, -, -, hoffset⟩ := hstop quoteByte (by decide)
  refine ⟨result, m, hscan, ?_, hoffset, ?_⟩
  · rw [hquote rfl]
    rfl
  · rw [hdiagnostics]
    rfl

end Fresh

end ArithLexer
