import ArithLexer.Diagnostic.Code
import Mathlib.Data.List.DropRight

/-!
# Reading codes back

The text of a code is its family with a run of decimal digits behind it. A family that does not
end in a digit itself stops the run on its left side, so the family and the number are found again
by cutting the text in front of the longest run of digits at its end (`ofText`). The zeros that
fill up a short number do not count in its value (`ofDigitChars_digits`). Hence different codes have
different texts.
-/

namespace ArithLexer

/-! ### The run at the end of a list -/

section Runs

variable {α : Type} {p : α → Bool} {front back : List α}

theorem rdropWhile_append_of_forall (h : ∀ a ∈ back, p a = true) :
    (front ++ back).rdropWhile p = front.rdropWhile p := by
  have hreverse : ∀ a ∈ back.reverse, p a = true := fun a ha => h a (List.mem_reverse.mp ha)
  rw [List.rdropWhile, List.reverse_append, List.dropWhile_append_of_pos hreverse]
  rfl

theorem rtakeWhile_append_of_forall (h : ∀ a ∈ back, p a = true) :
    (front ++ back).rtakeWhile p = front.rtakeWhile p ++ back := by
  have hreverse : ∀ a ∈ back.reverse, p a = true := fun a ha => h a (List.mem_reverse.mp ha)
  rw [List.rtakeWhile, List.reverse_append, List.takeWhile_append_of_pos hreverse,
    List.reverse_append, List.reverse_reverse]
  rfl

end Runs

namespace DiagnosticCode

/-! ### Digits of a code -/

section Digits

variable (c : DiagnosticCode)

theorem digits_eq : c.digits =
    List.replicate (4 - (Nat.toDigits 10 c.number).length) '0' ++ Nat.toDigits 10 c.number := rfl

theorem isDigit_of_mem_digits : ∀ ch ∈ c.digits, ch.isDigit = true := by
  intro ch hch
  rw [digits_eq] at hch
  rcases List.mem_append.mp hch with hzero | hdigit
  · rw [List.eq_of_mem_replicate hzero]
    rfl
  · exact Nat.isDigit_of_mem_toDigits (by decide) (by decide) hdigit

/-- Zeros in front do not change the number that digits spell. -/
theorem ofDigitChars_digits : Nat.ofDigitChars 10 c.digits 0 = c.number := by
  rw [digits_eq, Nat.ofDigitChars_append, Nat.ofDigitChars_replicate_zero, Nat.mul_zero,
    Nat.ofDigitChars_ten_toDigits]

theorem toList_text : c.text.toList = c.family.toList ++ c.digits := by
  rw [text, String.toList_append, String.toList_ofList]

end Digits

/-! ### The code of a text -/

/-- Whether the family ends in a decimal digit. -/
def endsInDigit (c : DiagnosticCode) : Bool := c.family.toList.getLast?.any Char.isDigit

/-- The family and the number that a text is cut into in front of the longest run of digits at its
end. -/
def ofText (text : String) : DiagnosticCode where
  family := String.ofList (text.toList.rdropWhile Char.isDigit)
  number := Nat.ofDigitChars 10 (text.toList.rtakeWhile Char.isDigit) 0

section Reading

variable {c d : DiagnosticCode}

/-- Nothing of a family belongs to a run of digits at its end. -/
theorem not_isDigit_getLast (h : c.endsInDigit = false) (hne : c.family.toList ≠ []) :
    ¬(c.family.toList.getLast hne).isDigit = true := by
  rw [endsInDigit, List.getLast?_eq_some_getLast hne] at h
  exact Bool.eq_false_iff.mp h

theorem rdropWhile_text (h : c.endsInDigit = false) :
    c.text.toList.rdropWhile Char.isDigit = c.family.toList := by
  rw [toList_text, rdropWhile_append_of_forall c.isDigit_of_mem_digits,
    List.rdropWhile_eq_self_iff]
  exact not_isDigit_getLast h

theorem rtakeWhile_text (h : c.endsInDigit = false) :
    c.text.toList.rtakeWhile Char.isDigit = c.digits := by
  have hfamily : c.family.toList.rtakeWhile Char.isDigit = [] :=
    List.rtakeWhile_eq_nil_iff.mpr (not_isDigit_getLast h)
  rw [toList_text, rtakeWhile_append_of_forall c.isDigit_of_mem_digits, hfamily, List.nil_append]

theorem ofText_text (h : c.endsInDigit = false) : ofText c.text = c := by
  rw [ofText, rdropWhile_text h, rtakeWhile_text h, String.ofList_toList, ofDigitChars_digits]

/-- Codes whose families do not end in a digit have one text only if they have one family and one
number. Both are read off the text: in front of its longest run of digits at the end stands the
family, and the run spells the number, with zeros up to four digits if it is short. The families
of errors and of warnings do not end in a digit. -/
theorem text_tells_code (hc : c.endsInDigit = false) (hd : d.endsInDigit = false) :
    (c.text = d.text ↔ c.family = d.family ∧ c.number = d.number) ∧
      c.text.toList.rdropWhile Char.isDigit = c.family.toList ∧
      c.text.toList.rtakeWhile Char.isDigit =
        List.replicate (4 - (Nat.toDigits 10 c.number).length) '0' ++
          Nat.toDigits 10 c.number ∧
      ofText c.text = c ∧
      ∀ n, (⟨"E", n⟩ : DiagnosticCode).endsInDigit = false ∧
        (⟨"W", n⟩ : DiagnosticCode).endsInDigit = false := by
  refine ⟨⟨?_, ?_⟩, rdropWhile_text hc, rtakeWhile_text hc, ofText_text hc, ?_⟩
  · intro htext
    have hcode : c = d := by
      calc c = ofText c.text := (ofText_text hc).symm
        _ = ofText d.text := congrArg ofText htext
        _ = d := ofText_text hd
    exact ⟨congrArg family hcode, congrArg number hcode⟩
  · rintro ⟨hfamily, hnumber⟩
    rw [text, text, digits, digits, hfamily, hnumber]
  · intro n
    simp [endsInDigit]

/-- A number that is filled up with zeros, beside one of six digits that ends in the same way. -/
theorem text_tells_code_of_warnings :
    (⟨"W", 42⟩ : DiagnosticCode).endsInDigit = false ∧
      (⟨"W", 100042⟩ : DiagnosticCode).endsInDigit = false ∧
      (⟨"W", 42⟩ : DiagnosticCode).text = "W0042" ∧
      (⟨"W", 100042⟩ : DiagnosticCode).text = "W100042" ∧
      (⟨"W", 42⟩ : DiagnosticCode).text ≠ (⟨"W", 100042⟩ : DiagnosticCode).text ∧
      ofText "W0042" = ⟨"W", 42⟩ ∧ ofText "W100042" = ⟨"W", 100042⟩ := by
  have hshort : (⟨"W", 42⟩ : DiagnosticCode).text = "W0042" := by decide
  have hlong : (⟨"W", 100042⟩ : DiagnosticCode).text = "W100042" := by decide
  obtain ⟨hiff, -, -, hreadShort, -⟩ :=
    text_tells_code (c := ⟨"W", 42⟩) (d := ⟨"W", 100042⟩) (by decide) (by decide)
  obtain ⟨-, -, -, hreadLong, -⟩ :=
    text_tells_code (c := ⟨"W", 100042⟩) (d := ⟨"W", 42⟩) (by decide) (by decide)
  rw [hshort] at hreadShort
  rw [hlong] at hreadLong
  refine ⟨by decide, by decide, hshort, hlong, ?_, hreadShort, hreadLong⟩
  intro htext
  exact absurd (hiff.mp htext).2 (by decide)

end Reading

/-- Where a family ends in a digit, another family and number have the same text. -/
example : (⟨"E1", 1⟩ : DiagnosticCode).text = (⟨"E", 10001⟩ : DiagnosticCode).text := by decide

end DiagnosticCode
end ArithLexer
