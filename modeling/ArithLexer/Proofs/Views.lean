import ArithLexer.Proofs.Decoding
import ArithLexer.Proofs.Histories
import ArithLexer.Proofs.Printing

/-!
# The texts of views

A view can be read, compared and shown, and `Agrees` says how these go together
for any bytes. The views that a lexer hands out are the texts of tokens. They
are plain ASCII, and so they are read and shown as they stand
(`TokenOf.text?_eq`).
-/

namespace ArithLexer

namespace View

variable {v : View} {t : String}

theorem matchesText_iff : v.matchesText t = true ↔ v.bytes = Text.encode t := by
  rw [matchesText, beq_iff_eq]

theorem text?_eq_some_iff : v.text? = some t ↔ v.matchesText t = true := by
  rw [matchesText_iff]
  exact Text.decode?_eq_some_iff

theorem display_of_text? (h : v.text? = some t) : v.display = t := by
  rw [display, Text.decode?_eq_some_iff.mp h, Text.decodeLossy_encode]

/-- How the texts of a view go together. It is read as the one text that it compares equal to,
which is also what is shown. If there is none, a text is shown that it does not compare equal
to. What is shown is itself read and shown as it stands. -/
structure Agrees (v : View) : Prop where
  /-- The view is read exactly if its bytes are well formed. -/
  valid_iff : v.text?.isSome = true ↔ v.bytes.toByteArray.IsValidUTF8
  reads_iff : ∀ t, v.text? = some t ↔ v.matchesText t = true
  unique : ∀ t u, v.matchesText t = true → v.matchesText u = true → t = u
  shows : ∀ t, v.text? = some t → v.display = t
  replaces : v.text? = none →
    '\uFFFD' ∈ v.display.toList ∧ v.matchesText v.display = false
  /-- The malformed stretches are the longest ones, and each is shown as one character. -/
  pieces : ∃ found, Text.Splits v.bytes found ∧
    v.display = String.ofList (found.map fun piece => piece.getD '\uFFFD')
  again : ∃ w, ofRange (Text.encode v.display).toArray 0 (Text.encode v.display).length = .ok w ∧
    w.bytes = Text.encode v.display ∧ w.text? = some v.display ∧ w.display = v.display

theorem agrees (v : View) : v.Agrees where
  valid_iff := Text.decode?_isSome_iff
  reads_iff _ := text?_eq_some_iff
  unique t u ht hu := by
    rw [← text?_eq_some_iff] at ht hu
    rw [ht] at hu
    cases hu
    rfl
  shows _ := display_of_text?
  replaces h := by
    refine ⟨Text.replacement_mem_decodeLossy h, ?_⟩
    by_contra hmatches
    rw [Bool.not_eq_false, ← text?_eq_some_iff, h] at hmatches
    cases hmatches
  pieces := ⟨_, Text.splits_iff.mpr rfl, rfl⟩
  again := by
    have htext : (View.mk (Text.encode v.display)).text? = some v.display :=
      Text.decode?_eq_some_iff.mpr rfl
    refine ⟨_, ofRange_of_le (by simp), ?_⟩
    simp only [List.drop_zero, List.take_length]
    exact ⟨trivial, htext, display_of_text? htext⟩

end View

/-- A token of a source is plain ASCII. -/
theorem TokenOf.ascii {text : List UInt8} {t : Token} (h : TokenOf text t) :
    ∀ b ∈ t.lexeme.bytes, b.toNat ≤ 0x7F := by
  rcases TokenKind.spells_iff.mp h.spells with ⟨-, -, hdigits⟩ | ⟨b, hbytes, hb⟩
  · intro b hb
    have hdigit := hdigits b hb
    simp only [isDigit, Bool.and_eq_true, decide_eq_true_eq, UInt8.le_iff_toNat_le] at hdigit
    exact hdigit.2.trans (by decide)
  · rw [hbytes]
    intro c hc
    rw [List.mem_singleton.mp hc]
    unfold TokenKind.ofByte? at hb
    split_ifs at hb <;> subst b <;> decide

/-- The text of a token is read, and it is shown as it stands. -/
theorem TokenOf.text?_eq {text : List UInt8} {t : Token} (h : TokenOf text t) :
    t.lexeme.text? = some t.lexeme.display ∧
      Text.encode t.lexeme.display = t.lexeme.bytes := by
  have hbytes := Text.eq_encode_of_ascii h.ascii
  have htext := View.text?_eq_some_iff.mpr (View.matchesText_iff.mpr hbytes)
  rw [View.display_of_text? htext]
  exact ⟨htext, hbytes.symm⟩

namespace Lexer

/-- The texts of a view go together, whatever bytes it was cut out of, and the text of every
token that a lexer ever tells of is read and shown as it stands. -/
theorem view_texts_agree :
    (∀ (base : Array UInt8) (start length : Nat), start + length ≤ base.size →
      ∃ v, View.ofRange base start length = .ok v ∧
        v.bytes = (base.toList.drop start).take length ∧ v.Agrees) ∧
    ∀ (source : Array UInt8) (config : Config) (ops : List Operation) (outcomes : List Outcome)
      (l : Lexer), history ops (withConfig source config) = .ok (outcomes, l) →
      ∀ t, t ∈ l.tokens.toList ∨ (∃ o ∈ outcomes, t ∈ o.tokens) →
        t.lexeme.text? = some t.lexeme.display ∧
          Text.encode t.lexeme.display = t.lexeme.bytes := by
  constructor
  · intro base start length hrange
    exact ⟨_, View.ofRange_of_le hrange, rfl, View.agrees _⟩
  · intro source config ops outcomes l hhistory t ht
    have hl := (history_answers (sound_withConfig source config) ops).of_ok hhistory
    rcases ht with ht | ⟨o, ho, ht⟩
    · exact (hl.sound.tokens t ht).text?_eq
    · exact ((hl.outcomes_sound o ho).tokens t ht).text?_eq

/-- A stretch with a character that breaks off, a surrogate and an overlong form, and the
tokens before a byte that begins none. -/
theorem view_texts_agree_on_malformed :
    1 + 9 ≤ (#[0x31, 0xE2, 0x82, 0x20, 0xED, 0xA0, 0x80, 0xC3, 0xA9, 0xC0] : Array UInt8).size ∧
    (∃ v, View.ofRange #[0x31, 0xE2, 0x82, 0x20, 0xED, 0xA0, 0x80, 0xC3, 0xA9, 0xC0] 1 9 = .ok v ∧
      v.text? = none ∧ v.display = "\uFFFD \uFFFD\uFFFD\uFFFDé\uFFFD" ∧
      v.matchesText v.display = false) ∧
    ∃ outcomes l, history [.scan] (withConfig #[0x31, 0x32, 0x2B, 0xFF] ⟨.report, 4⟩) =
        .ok (outcomes, l) ∧
      ∀ t ∈ l.tokens.toList, t.lexeme.text? = some t.lexeme.display := by
  obtain ⟨hviews, htokens⟩ := view_texts_agree
  refine ⟨by decide, ?_, ?_⟩
  · obtain ⟨v, hv, hbytes, hagrees⟩ :=
      hviews #[0x31, 0xE2, 0x82, 0x20, 0xED, 0xA0, 0x80, 0xC3, 0xA9, 0xC0] 1 9 (by decide)
    have htext : v.text? = none := by
      rw [View.text?, hbytes]
      decide +kernel
    refine ⟨v, hv, htext, ?_, (hagrees.replaces htext).2⟩
    rw [View.display, hbytes]
    decide +kernel
  · obtain ⟨outcomes, l, hhistory, -⟩ := (history_answers
      (sound_withConfig #[0x31, 0x32, 0x2B, 0xFF] ⟨.report, 4⟩) [.scan]).exists_ok
        (countable_of_size_le (by decide))
    exact ⟨outcomes, l, hhistory, fun t ht => (htokens _ _ _ _ _ hhistory t (.inl ht)).1⟩

end Lexer

end ArithLexer
