import ArithLexer.Toml.Document
import Mathlib.Data.List.Forall2
import Mathlib.Tactic.IntervalCases

/-!
# Lines of a document

What the readers make of a line `key = value` whose key is bare and whose value
is a quoted word or a decimal numeral. A reader that is repeated stops where it
takes nothing (`Takes`), so the lines of a document are read one after the other.
-/

namespace ArithLexer.Toml

/-! ### Readers -/

/-- A reader takes some items one after the other, and nothing from what is left. -/
inductive Takes {α : Type} (read : Reader α) : List Char → List α → List Char → Prop
  | stop {text} : read text = none → Takes read text [] text
  | item {text rest last a items} : read text = some (a, rest) → rest.length < text.length →
      Takes read rest items last → Takes read text (a :: items) last

section Readers

variable {α : Type} {read : Reader α} {text rest run : List Char} {c : Char}

theorem expect_self (c : Char) (rest : List Char) : expect c (c :: rest) = some rest := if_pos rfl

theorem expect_of_head_ne (h : text.head? ≠ some c) : expect c text = none := by
  cases text with
  | nil => rfl
  | cons d rest => exact if_neg fun hd => h (congrArg some hd)

theorem skipSpaces_of_not_isSpace (h : isSpace c = false) : skipSpaces (c :: rest) = c :: rest := by
  simp [skipSpaces, h]

theorem manyOnto_of_takes {items : List α} {bound : List Char} {found : Array α}
    (h : Takes read text items rest) (hbound : text.length ≤ bound.length) :
    manyOnto read found bound text = (found ++ items.toArray, rest) := by
  induction h generalizing found bound with
  | stop hread => simp [manyOnto_of_none hread]
  | item hread hlt _ ih =>
    cases bound with
    | nil =>
      simp only [List.length_nil] at hbound
      omega
    | cons c bound =>
      simp only [List.length_cons] at hbound
      simp only [manyOnto, hread]
      rw [ih (by omega)]
      simp

theorem many_of_takes {items : List α} (h : Takes read text items rest) :
    many read text = (items, rest) := by
  simp [many, manyOnto_of_takes h (Nat.le_refl _)]

/-- A run of a class ends where the class does. -/
theorem readRun_append {ofClass : Char → Bool} (hne : run ≠ [])
    (hrun : ∀ c ∈ run, ofClass c = true) (hrest : ∀ c, rest.head? = some c → ofClass c = false) :
    readRun ofClass (run ++ rest) = some (run, rest) := by
  have htake : (run ++ rest).takeWhile ofClass = run := by
    rw [List.takeWhile_append_of_pos hrun]
    cases rest with
    | nil => simp
    | cons c rest => simp [hrest c rfl]
  have hdrop : (run ++ rest).dropWhile ofClass = rest := by
    rw [List.dropWhile_append_of_pos hrun]
    cases rest with
    | nil => rfl
    | cons c rest => simp [hrest c rfl]
  rw [readRun, htake, hdrop]
  cases run with
  | nil => exact absurd rfl hne
  | cons c run => rfl

end Readers

/-! ### Ends of lines -/

/-- The end of a line or of the text, and what stands behind it. -/
inductive Ends : List Char → List Char → Prop
  | text : Ends [] []
  | feed (rest) : Ends ('\n' :: rest) rest
  | both (rest) : Ends ('\r' :: '\n' :: rest) rest

section Ends

variable {tail rest : List Char} {c : Char}

theorem Ends.head_cases (h : Ends tail rest) (hc : tail.head? = some c) : c = '\n' ∨ c = '\r' := by
  cases h <;> cases hc <;> simp

theorem Ends.expect_eq (h : Ends tail rest) (hfeed : c ≠ '\n') (hreturn : c ≠ '\r') :
    expect c tail = none :=
  expect_of_head_ne fun hc => (h.head_cases hc).elim hfeed hreturn

theorem Ends.skipSpaces_eq (h : Ends tail rest) : skipSpaces tail = tail := by
  cases h <;> rfl

theorem Ends.statementEnd?_eq (h : Ends tail rest) : statementEnd? tail = some rest := by
  cases h <;> rfl

theorem Ends.length_le (h : Ends tail rest) : rest.length ≤ tail.length := by
  cases h
  · simp
  · simp
  · simp only [List.length_cons]
    omega

end Ends

/-! ### Quoted words -/

section Words

variable {word rest : List Char}

theorem Takes.basic_word (hword : ∀ c ∈ word, isBasic c = true) (hne : word ≠ []) :
    Takes readBasicRun (word ++ '\x22' :: rest) [word] ('\x22' :: rest) := by
  have hrun : readRun isBasic (word ++ '\x22' :: rest) = some (word, '\x22' :: rest) := by
    refine readRun_append hne hword fun c hc => ?_
    cases hc
    decide
  refine .item ?_ (by simpa using List.length_pos_iff.mpr hne) (.stop rfl)
  cases word with
  | nil => exact absurd rfl hne
  | cons c word =>
    have hc : c ≠ '\\' := by
      rintro rfl
      exact absurd (hword '\\' (by simp)) (by decide)
    rw [List.cons_append, readBasicRun]
    · exact hrun
    · simpa using hc

/-- A word between quotes is itself. -/
theorem readBasic_word (hword : ∀ c ∈ word, isBasic c = true) (hne : word ≠ []) :
    readBasic ('\x22' :: (word ++ '\x22' :: rest)) = some (String.ofList word, rest) := by
  rw [readBasic, expect_self]
  simp only [Option.bind_eq_bind, Option.bind_some, many_of_takes (Takes.basic_word hword hne),
    expect_self]
  simp

theorem readScalar_word (hword : ∀ c ∈ word, isBasic c = true) (hne : word ≠ []) :
    readScalar ('\x22' :: (word ++ '\x22' :: rest)) =
      some (.string (String.ofList word), rest) := by
  have hstring : readString ('\x22' :: (word ++ '\x22' :: rest)) =
      some (String.ofList word, rest) := by
    have hbasic := @readBasic_word word rest hword hne
    cases word with
    | nil => exact absurd rfl hne
    | cons c word =>
      have hc : c ≠ '\x22' := by
        rintro rfl
        exact absurd (hword '\x22' (by simp)) (by decide)
      rw [List.cons_append, readString]
      · exact hbasic
      · intro more hmore
        exact hc (List.cons.inj hmore).1
  rw [readScalar, if_pos (.inl rfl), hstring]
  rfl

end Words

/-! ### Decimal numerals -/

/-- The digits of a decimal numeral without zeros in front. -/
structure Decimal (digits : List Nat) : Prop where
  ne_nil : digits ≠ []
  lt_ten : ∀ d ∈ digits, d < 10
  front : ∀ others, digits = 0 :: others → others = []

/-- The digits as characters. -/
def written (digits : List Nat) : List Char := digits.map Nat.digitChar

/-- Every number has a numeral, the one that it is printed as. -/
theorem exists_decimal (n : Nat) :
    ∃ digits, Decimal digits ∧ ofDigits 10 digits = n ∧ (toString n).toList = written digits := by
  rw [Nat.toString_eq_ofList_toDigits, String.toList_ofList]
  induction n using Nat.strong_induction_on with
  | _ n ih =>
  by_cases hn : n < 10
  · refine ⟨[n], ⟨by simp, by simpa using hn, ?_⟩, by simp [ofDigits], ?_⟩
    · intro others hothers
      cases hothers
      rfl
    · rw [Nat.toDigits_of_lt_base hn]
      rfl
  · obtain ⟨digits, hdigits, hvalue, hwritten⟩ := ih (n / 10) (by omega)
    refine ⟨digits ++ [n % 10], ⟨by simp, ?_, ?_⟩, ?_, ?_⟩
    · intro d hd
      rcases List.mem_append.mp hd with hd | hd
      · exact hdigits.lt_ten d hd
      · rw [List.mem_singleton.mp hd]
        exact Nat.mod_lt n (by decide)
    · intro others hothers
      cases digits with
      | nil => exact absurd rfl hdigits.ne_nil
      | cons d digits =>
        cases hothers
        rw [hdigits.front digits rfl] at hvalue
        simp only [ofDigits, List.foldl_cons, List.foldl_nil] at hvalue
        omega
    · rw [ofDigits, List.foldl_append]
      change 10 * ofDigits 10 digits + n % 10 = n
      rw [hvalue]
      omega
    · rw [Nat.toDigits_of_base_le (by decide) (by omega), hwritten]
      simp [written]

section Numerals

variable {d : Nat} {digits : List Nat} {tail rest : List Char} {c : Char}

theorem digit?_digitChar (hd : d < 10) : digit? 10 (Nat.digitChar d) = some d := by
  interval_cases d <;> decide

theorem decimalDigit?_digitChar (hd : d < 10) :
    decimalDigit? (Nat.digitChar d) = some d := by
  interval_cases d <;> decide

theorem digitChar_ne (hd : d < 10) (hc : decimalDigit? c = none) : Nat.digitChar d ≠ c := by
  rintro rfl
  rw [decimalDigit?_digitChar hd] at hc
  cases hc

/-- A numeral begins with a digit. -/
theorem Decimal.exists_front (h : Decimal digits) :
    ∃ e more, written digits = e :: more ∧ ∀ {c}, decimalDigit? c = none → e ≠ c := by
  cases digits with
  | nil => exact absurd rfl h.ne_nil
  | cons d others =>
    exact ⟨Nat.digitChar d, written others, rfl, digitChar_ne (h.lt_ten d (by simp))⟩

theorem readDigit_written (hd : d < 10) :
    readDigit 10 (written (d :: digits) ++ tail) = some (d, written digits ++ tail) := by
  change readDigit 10 (Nat.digitChar d :: (written digits ++ tail)) = _
  rw [readDigit, digit?_digitChar hd]
  rfl

/-- Digits are read up to where there is none. -/
theorem Takes.written_digits (hdigits : ∀ d ∈ digits, d < 10) (hend : Ends tail rest) :
    Takes (fun text => readDigit 10 ((expect '_' text).getD text)) (written digits ++ tail)
      digits tail := by
  induction digits with
  | nil =>
    refine .stop ?_
    cases hend <;> rfl
  | cons d digits ih =>
    obtain ⟨hd, hrest⟩ := List.forall_mem_cons.mp hdigits
    refine .item ?_ (by simp [written]) (ih hrest)
    have hunderscore : expect '_' (written (d :: digits) ++ tail) = none :=
      expect_of_head_ne fun hc => digitChar_ne hd rfl (Option.some.inj hc)
    rw [hunderscore, Option.getD_none]
    exact readDigit_written hd

theorem readDigits_written (hdigits : ∀ e ∈ d :: digits, e < 10) (hend : Ends tail rest) :
    readDigits 10 (written (d :: digits) ++ tail) = some (d :: digits, tail) := by
  obtain ⟨hd, hrest⟩ := List.forall_mem_cons.mp hdigits
  rw [readDigits, readDigit_written hd]
  simp only [Option.bind_eq_bind, Option.bind_some,
    many_of_takes (Takes.written_digits hrest hend)]
  rfl

/-- A numeral begins with another digit than zero, or it is zero. -/
theorem Decimal.cases (h : Decimal digits) : digits = [0] ∨
    ∃ d others, digits = d :: others ∧ 0 < d ∧ d < 10 := by
  cases digits with
  | nil => exact absurd rfl h.ne_nil
  | cons d others =>
    rcases Nat.eq_zero_or_pos d with rfl | hd
    · exact .inl (by rw [h.front others rfl])
    · exact .inr ⟨d, others, rfl, hd, h.lt_ten d (by simp)⟩

theorem digitChar_ne_zero (hpos : 0 < d) (hd : d < 10) : Nat.digitChar d ≠ '0' := by
  interval_cases d <;> decide

theorem readWhole_written (h : Decimal digits) (hend : Ends tail rest) :
    readWhole (written digits ++ tail) = some (digits, tail) := by
  rcases h.cases with rfl | ⟨d, others, rfl, hpos, hd⟩
  · rfl
  · have hne := digitChar_ne_zero hpos hd
    have hdigits := readDigits_written h.lt_ten hend
    change readWhole (Nat.digitChar d :: (written others ++ tail)) = _
    rw [readWhole]
    · exact hdigits
    · intro more hmore
      exact hne (List.cons.inj hmore).1

theorem readSign_written (h : Decimal digits) :
    readSign (written digits ++ tail) = (false, written digits ++ tail) := by
  obtain ⟨e, more, hwritten, hne⟩ := h.exists_front
  rw [hwritten, List.cons_append, readSign]
  · exact fun _ hmore => hne rfl (List.cons.inj hmore).1
  · exact fun _ hmore => hne rfl (List.cons.inj hmore).1

/-- No mark of another base stands behind a zero. -/
theorem Decimal.not_marked (h : Decimal digits) (hend : Ends tail rest) (hfeed : c ≠ '\n')
    (hreturn : c ≠ '\r') (more : List Char) : written digits ++ tail ≠ '0' :: c :: more := by
  intro hmore
  rcases h.cases with rfl | ⟨d, others, rfl, hpos, hd⟩
  · have htail : tail = c :: more := (List.cons.inj hmore).2
    exact (hend.head_cases (congrArg List.head? htail)).elim hfeed hreturn
  · exact digitChar_ne_zero hpos hd (List.cons.inj hmore).1

/-- What is read has only to lie inside. Nothing is said of the numbers that do, since they
reach too far to be counted through. -/
theorem read_inside {n : Int} {inside : Int → Bool} {result : Option (Int × List Char)}
    (hread : result = some (n, tail)) (hinside : inside n = true) :
    (do
      let (n, rest) ← result
      if inside n then return (n, rest) else none) = some (n, tail) := by
  simp [hread, hinside]

/-- A number of 64 bits is read from its numeral. -/
theorem readInteger_written (h : Decimal digits) (hend : Ends tail rest)
    (hn : ofDigits 10 digits < 2 ^ 63) :
    readInteger (written digits ++ tail) = some ((ofDigits 10 digits : Int), tail) := by
  have hdecimal : readDecimal (written digits ++ tail) =
      some ((ofDigits 10 digits : Int), tail) := by
    have hbelow : ofDigitsBelow integerLimit 10 digits = ofDigits 10 digits := by
      apply ofDigitsBelow_of_lt (by decide)
      rw [integerLimit]
      omega
    rw [readDecimal, readSign_written h]
    simp only [Option.bind_eq_bind, readWhole_written h hend, Option.bind_some, hbelow]
    rfl
  have hrange : inRange (ofDigits 10 digits : Int) = true := by
    rw [inRange, decide_eq_true_iff]
    omega
  rw [readInteger]
  · exact read_inside hdecimal hrange
  · exact h.not_marked hend (by decide) (by decide)
  · exact h.not_marked hend (by decide) (by decide)
  · exact h.not_marked hend (by decide) (by decide)

theorem decimalDigit?_isSome_of_mem (hdigits : ∀ d ∈ digits, d < 10) (hc : c ∈ written digits) :
    (decimalDigit? c).isSome = true := by
  obtain ⟨d, hd, rfl⟩ := List.mem_map.mp hc
  rw [decimalDigit?_digitChar (hdigits d hd)]
  rfl

theorem isSome_of_mapM {values : List Nat} (h : rest.mapM decimalDigit? = some values)
    (hc : c ∈ rest) : (decimalDigit? c).isSome = true := by
  induction rest generalizing values with
  | nil => cases hc
  | cons d rest ih =>
    rw [List.mapM_cons] at h
    obtain ⟨e, he, hrest⟩ := Option.bind_eq_some_iff.mp h
    obtain ⟨others, hothers, -⟩ := Option.bind_eq_some_iff.mp hrest
    rcases List.mem_cons.mp hc with rfl | hc
    · rw [he]
      rfl
    · exact ih hothers hc

/-- Behind some digits of a numeral there are more of them, or the line ends. -/
theorem expect_drop_eq_none {count : Nat} (h : Decimal digits) (hend : Ends tail rest)
    (hcount : ∀ e ∈ (written digits ++ tail).take count, (decimalDigit? e).isSome = true)
    (hdigit : decimalDigit? c = none) (hfeed : c ≠ '\n') (hreturn : c ≠ '\r') :
    expect c ((written digits ++ tail).drop count) = none := by
  apply expect_of_head_ne
  rw [List.head?_drop]
  intro hc
  rcases Nat.lt_trichotomy count (written digits).length with hlt | heq | hgt
  · rw [List.getElem?_append_left hlt] at hc
    have hsome := decimalDigit?_isSome_of_mem h.lt_ten (List.mem_of_getElem? hc)
    rw [hdigit] at hsome
    cases hsome
  · rw [List.getElem?_append_right heq.ge, heq, Nat.sub_self, ← List.head?_eq_getElem?] at hc
    exact (hend.head_cases hc).elim hfeed hreturn
  · -- the end of the line would have been taken for a digit
    have hhead : ∃ e, tail.head? = some e ∧ decimalDigit? e = none := by
      cases hend with
      | text =>
        rw [List.append_nil, List.getElem?_eq_none hgt.le] at hc
        cases hc
      | feed _ => exact ⟨'\n', rfl, rfl⟩
      | both _ => exact ⟨'\r', rfl, rfl⟩
    obtain ⟨e, he, hnone⟩ := hhead
    have hmem : e ∈ (written digits ++ tail).take count := by
      apply List.mem_of_getElem? (i := (written digits).length)
      rw [List.getElem?_take_of_lt hgt, List.getElem?_append_right (Nat.le_refl _), Nat.sub_self,
        ← List.head?_eq_getElem?, he]
    have hsome := hcount e hmem
    rw [hnone] at hsome
    cases hsome

theorem readFixed_some {count low high n : Nat} {text : List Char}
    (h : readFixed count low high text = some (n, rest)) :
    rest = text.drop count ∧ ∀ e ∈ text.take count, (decimalDigit? e).isSome = true := by
  rw [readFixed] at h
  obtain ⟨values, hvalues, hrest⟩ := Option.bind_eq_some_iff.mp h
  simp only at hrest
  split at hrest
  · cases hrest
    exact ⟨rfl, fun e he => isSome_of_mapM hvalues he⟩
  · cases hrest

/-- A numeral is no moment. -/
theorem moment?_written (h : Decimal digits) (hend : Ends tail rest) :
    moment? (written digits ++ tail) = none := by
  have hbehind : ∀ {count low high n more c}, decimalDigit? c = none → c ≠ '\n' → c ≠ '\r' →
      readFixed count low high (written digits ++ tail) = some (n, more) →
      expect c more = none := by
    intro count low high n more c hdigit hfeed hreturn hread
    obtain ⟨rfl, hcount⟩ := readFixed_some hread
    exact expect_drop_eq_none h hend hcount hdigit hfeed hreturn
  have hdate : date? (written digits ++ tail) = none := by
    rw [date?]
    cases hread : readFixed 4 0 9999 (written digits ++ tail) with
    | none => rfl
    | some p =>
      have hnone := hbehind (c := '-') rfl (by decide) (by decide) hread
      simp [hnone]
  have htime : time? (written digits ++ tail) = none := by
    rw [time?, minutes?]
    cases hread : readFixed 2 0 23 (written digits ++ tail) with
    | none => rfl
    | some p =>
      have hnone := hbehind (c := ':') rfl (by decide) (by decide) hread
      simp [hnone]
  simp only [moment?, hdate, htime]

/-- A numeral is no float. -/
theorem float?_written (h : Decimal digits) (hend : Ends tail rest) :
    float? (written digits ++ tail) = none := by
  have hfraction : readFraction tail = none := by
    rw [readFraction, hend.expect_eq (by decide) (by decide)]
    rfl
  have hexponent : readExponent tail = none := by
    rw [readExponent, hend.expect_eq (by decide) (by decide),
      hend.expect_eq (by decide) (by decide)]
    rfl
  have hfinite : finiteFloat? (written digits ++ tail) = none := by
    rw [finiteFloat?, readSign_written h]
    simp [readWhole_written h hend, hfraction, hexponent]
  have hspecial : specialFloat? (written digits ++ tail) = none := by
    obtain ⟨e, more, hwritten, hne⟩ := h.exists_front
    have hletter : ∀ {c}, decimalDigit? c = none → expect c (written digits ++ tail) = none := by
      intro c hc
      rw [hwritten]
      exact expect_of_head_ne fun hhead => hne hc (Option.some.inj hhead)
    rw [specialFloat?, readSign_written h]
    simp only [expectAll, hletter (c := 'i') rfl, hletter (c := 'n') rfl, Option.bind_none,
      Option.or_none]
  rw [float?, hfinite, hspecial]
  rfl

/-- The numeral of a number of 64 bits is an integer. -/
theorem readScalar_written (h : Decimal digits) (hend : Ends tail rest)
    (hn : ofDigits 10 digits < 2 ^ 63) :
    readScalar (written digits ++ tail) = some (.integer (ofDigits 10 digits), tail) := by
  have hmoment := moment?_written h hend
  have hfloat := float?_written h hend
  have hinteger := readInteger_written h hend hn
  obtain ⟨e, more, hwritten, hne⟩ := h.exists_front
  rw [hwritten, List.cons_append] at hmoment hfloat hinteger ⊢
  rw [readScalar, if_neg (not_or.mpr ⟨hne rfl, hne rfl⟩), if_neg (hne rfl), if_neg (hne rfl)]
  simp only [hmoment, hfloat, hinteger]
  rfl

end Numerals

/-! ### Lines -/

section Lines

variable {key text tail rest : List Char} {c : Char} {v : Value}

/-- A bare key. -/
structure Bare (key : List Char) : Prop where
  ne_nil : key ≠ []
  isBare : ∀ c ∈ key, isBare c = true

theorem Bare.cases (h : Bare key) : ∃ d more, key = d :: more ∧ Toml.isBare d = true := by
  cases key with
  | nil => exact absurd rfl h.ne_nil
  | cons d more => exact ⟨d, more, rfl, h.isBare d (by simp)⟩

theorem isBare_ne {d : Char} (hd : isBare d = true) (hc : isBare c = false) : d ≠ c := by
  rintro rfl
  rw [hd] at hc
  cases hc

theorem isSpace_of_isBare (hc : isBare c = true) : isSpace c = false := by
  simp [isSpace, isBare_ne hc (c := ' ') (by decide), isBare_ne hc (c := '\t') (by decide)]

theorem readPart_bare (h : Bare key) (hrest : ∀ c, rest.head? = some c → isBare c = false) :
    readPart (key ++ rest) = some (String.ofList key, skipSpaces rest) := by
  have hrun := readRun_append h.ne_nil h.isBare hrest
  obtain ⟨d, more, rfl, hd⟩ := h.cases
  rw [List.cons_append] at hrun ⊢
  rw [readPart, skipSpaces_of_not_isSpace (isSpace_of_isBare hd)]
  split
  · next heq => exact absurd (List.cons.inj heq).1 (isBare_ne hd (by decide))
  · next heq => exact absurd (List.cons.inj heq).1 (isBare_ne hd (by decide))
  · simp [hrun]

theorem readKey_bare (h : Bare key) (rest : List Char) :
    readKey (key ++ ' ' :: '=' :: rest) = some ([String.ofList key], '=' :: rest) := by
  have hpart : readPart (key ++ ' ' :: '=' :: rest) = some (String.ofList key, '=' :: rest) := by
    rw [readPart_bare h fun c hc => by cases hc; decide]
    rfl
  have hothers : many (fun text => (expect '.' text).bind readPart) ('=' :: rest) =
      ([], '=' :: rest) := many_of_none rfl
  rw [readKey, separated]
  simp [hpart, hothers, depthLimit]

/-- A key and a scalar on one line. -/
theorem readStatement_line (h : Bare key) (hspace : isSpace c = false) (hbracket : c ≠ '[')
    (hbrace : c ≠ '\x7b') (hvalue : readScalar (c :: text) = some (v, tail))
    (hend : Ends tail rest) :
    readStatement (key ++ ' ' :: '=' :: ' ' :: c :: text) =
      some (.pair [String.ofList key] v, rest) := by
  have hread : readValue (depthLimit - 1) (c :: text) = some (v, tail) := by
    change readValue (78 + 1) (c :: text) = _
    rw [readValue]
    · exact hvalue
    · exact fun more hmore => hbracket (List.cons.inj hmore).1
    · exact fun more hmore => hbrace (List.cons.inj hmore).1
  have hpair : readPair (readValue (depthLimit - 1)) (key ++ ' ' :: '=' :: ' ' :: c :: text) =
      some (([String.ofList key], v), tail) := by
    have hskip : skipSpaces (' ' :: c :: text) = c :: text :=
      skipSpaces_of_not_isSpace hspace
    rw [readPair, readKey_bare h]
    simp [expect_self, hskip, hread, hend.skipSpaces_eq]
  obtain ⟨d, more, rfl, hd⟩ := h.cases
  rw [List.cons_append] at hpair ⊢
  have hne : ∀ {c}, isBare c = false → d ≠ c := isBare_ne hd
  rw [readStatement, if_neg (hne (by decide)),
    if_neg (not_or.mpr ⟨hne (by decide), hne (by decide)⟩), if_neg (hne (by decide))]
  simp [hpair, hend.statementEnd?_eq]

end Lines

/-- A line that is read as a statement wherever it ends. -/
structure Reads (line : List Char) (statement : Statement) : Prop where
  front : ∃ c more, line = c :: more ∧ isBare c = true
  read : ∀ {tail rest}, Ends tail rest →
    readStatement (line ++ tail) = some (statement, rest)

section Values

variable {key value word : List Char} {c : Char} {v : Value}

/-- A line with a bare key is read if its value is read up to the end. -/
theorem reads_line (h : Bare key) (hspace : isSpace c = false) (hbracket : c ≠ '[')
    (hbrace : c ≠ '\x7b')
    (hvalue : ∀ {tail rest}, Ends tail rest →
      readScalar (c :: (value ++ tail)) = some (v, tail)) :
    Reads (key ++ ' ' :: '=' :: ' ' :: c :: value) (.pair [String.ofList key] v) := by
  constructor
  · obtain ⟨d, more, rfl, hd⟩ := h.cases
    exact ⟨d, _, rfl, hd⟩
  · intro tail rest hend
    have hread := readStatement_line h hspace hbracket hbrace (hvalue hend) hend
    simpa using hread

/-- A line that gives a word. -/
theorem reads_word (h : Bare key) (hword : ∀ c ∈ word, isBasic c = true) (hne : word ≠ []) :
    Reads (key ++ ' ' :: '=' :: ' ' :: '\x22' :: (word ++ ['\x22']))
      (.pair [String.ofList key] (.string (String.ofList word))) := by
  refine reads_line h (by decide) (by decide) (by decide) fun {tail rest} _ => ?_
  rw [List.append_assoc]
  exact readScalar_word hword hne

/-- A line that gives a number of 64 bits. -/
theorem reads_number (h : Bare key) {n : Nat} (hn : n < 2 ^ 63) :
    Reads (key ++ ' ' :: '=' :: ' ' :: (toString n).toList)
      (.pair [String.ofList key] (.integer n)) := by
  obtain ⟨digits, hdigits, rfl, hprinted⟩ := exists_decimal n
  have hvalue : ∀ {tail rest}, Ends tail rest →
      readScalar (written digits ++ tail) = some (.integer (ofDigits 10 digits), tail) :=
    fun hend => readScalar_written hdigits hend hn
  obtain ⟨e, more, hwritten, hne⟩ := hdigits.exists_front
  rw [hprinted, hwritten]
  rw [hwritten] at hvalue
  refine reads_line h ?_ (hne rfl) (hne rfl) hvalue
  simp [isSpace, hne (c := ' ') rfl, hne (c := '\t') rfl]

end Values

/-! ### Documents -/

/-- A text of some lines, each with its end. The last line may go without. -/
inductive Lines : List (List Char) → List Char → Prop
  | nil : Lines [] []
  | cons {line lines tail rest} : Ends tail rest → Lines lines rest →
      Lines (line :: lines) (line ++ tail)

section Documents

variable {lines : List (List Char)} {text : List Char} {statements : List Statement}
  {entries : Entries} {pairs : List (String × Value)}

/-- Nothing in front of a line is passed over, a mark of the byte order neither. -/
theorem Lines.front (hlines : Lines lines text) (h : List.Forall₂ Reads lines statements) :
    skipSpaces text = text ∧ expect '\uFEFF' text = none := by
  cases hlines with
  | nil => exact ⟨rfl, rfl⟩
  | cons _ _ =>
    cases h with
    | cons hline _ =>
      obtain ⟨c, more, rfl, hc⟩ := hline.front
      refine ⟨skipSpaces_of_not_isSpace (isSpace_of_isBare hc), expect_of_head_ne fun hmark => ?_⟩
      exact isBare_ne hc (by decide) (Option.some.inj hmark)

/-- The lines of a document are read one after the other. -/
theorem Lines.takes (hlines : Lines lines text) (h : List.Forall₂ Reads lines statements) :
    Takes (fun text => (readStatement text).map fun (statement, rest) =>
      (statement, skipSpaces rest)) text statements [] := by
  induction hlines generalizing statements with
  | nil =>
    cases h
    exact .stop rfl
  | @cons line lines tail rest hend hlines ih =>
    cases h with
    | cons hline hrest =>
      have hpos : 0 < line.length := by
        obtain ⟨c, more, rfl, -⟩ := hline.front
        simp
      refine .item ?_ ?_ (ih hrest)
      · simp only [hline.read hend, Option.map_some, (hlines.front hrest).1]
      · rw [List.length_append]
        have hle := hend.length_le
        omega

theorem readStatements_lines (hlines : Lines lines text)
    (h : List.Forall₂ Reads lines statements) : readStatements text = some statements := by
  obtain ⟨hspaces, hmark⟩ := hlines.front h
  simp only [readStatements, hmark, Option.getD_none, hspaces, many_of_takes (hlines.takes h)]

/-- Keys that are not there yet are added in their order. -/
theorem foldlM_add? (h : ((entries ++ pairs).map Prod.fst).Nodup) :
    (pairs.map fun pair => Statement.pair [pair.1] pair.2).foldlM Draft.add? ⟨entries, []⟩ =
      some ⟨entries ++ pairs, []⟩ := by
  induction pairs generalizing entries with
  | nil => simp
  | cons pair pairs ih =>
    have hfresh : entries.find? pair.1 = none := by
      rw [List.map_append, List.nodup_append] at h
      rw [Entries.find?, List.lookup_eq_none_iff]
      intro entry hentry
      have hne := h.2.2 entry.1 (List.mem_map_of_mem hentry) pair.1 (by simp)
      simpa using hne.symm
    have hadd : Draft.add? ⟨entries, []⟩ (.pair [pair.1] pair.2) =
        some ⟨entries ++ [pair], []⟩ := by
      simp [Draft.add?, Entries.within?, Entries.add?, hfresh]
    rw [List.map_cons, List.foldlM_cons, hadd]
    change List.foldlM Draft.add? ⟨entries ++ [pair], []⟩ _ = _
    rw [ih (by simpa using h), List.append_assoc]
    rfl

/-- Lines that each give another key a value are a document with these values. -/
theorem parse_lines {text : String} (hlines : Lines lines text.toList)
    (h : List.Forall₂ (fun line pair => Reads line (.pair [pair.1] pair.2)) lines pairs)
    (hkeys : (pairs.map Prod.fst).Nodup) : parse text = some pairs := by
  have hstatements := readStatements_lines hlines
    (List.forall₂_map_right_iff.mpr h)
  rw [parse, hstatements]
  have hadd := @foldlM_add? [] pairs hkeys
  simp only [Option.bind_eq_bind, Option.bind_some, hadd]
  rfl

end Documents

end ArithLexer.Toml
