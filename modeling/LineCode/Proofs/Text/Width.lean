import LineCode.Capture.Sample
import LineCode.Proofs.Text.Grouping

/-!
# The width of written numbers

A width is the least number of digits, and no more than that: a number that does not fit keeps all
its digits.  So symbols are always written with ten digits, but what was recorded for one need not
be.
-/

namespace LineCode

open Numeral

theorem Symbol.length_digits_text (s : Symbol) : (digits s.text).length = 10 := by
  rw [text, digits_grouped, length_binary_eq_iff (by omega)]
  exact s.toNat_lt

/-- What the text of a deviation shows of the two symbols. -/
theorem Capture.Deviation.text_symbol (row : Nat) (s : Sample) (got : Symbol) (disparity : Int) :
    ∃ front, Deviation.text ⟨row, s, .symbol got disparity⟩
      = front ++ "encoded " ++ got.text ++ " (cnt " ++ toString disparity ++ "), expected "
        ++ grouped 10 s.expected.toNat := by
  refine ⟨"row " ++ toString row ++ ": " ++ s.text ++ ": ", ?_⟩
  simp only [text, String.append_assoc]

/-- **A number has as many digits as it needs, and no fewer than the width says.**  They are as many
as the width says, and spell the low bits of the number, just if it fits the width.  In the text of
a deviation the symbol that came out has ten digits, and what was expected has ten just if it is
below 1024. -/
theorem length_digits_grouped (width n row : Nat) (s : Capture.Sample) (got : Symbol)
    (disparity : Int) :
    ((∀ c ∈ digits (grouped width n), IsBit c) ∧
      Nat.ofDigitChars 2 (digits (grouped width n)) 0 = n ∧
      ∀ k, 0 < k → ((digits (grouped width n)).length ≤ k ↔ width ≤ k ∧ n < 2 ^ k)) ∧
    (0 < width →
      ((digits (grouped width n)).length = width ∧
        Nat.ofDigitChars 2 (digits (grouped width n)) 0 = n % 2 ^ width ↔ n < 2 ^ width)) ∧
    ∃ front expected,
      Capture.Deviation.text ⟨row, s, .symbol got disparity⟩
        = front ++ "encoded " ++ got.text ++ " (cnt " ++ toString disparity ++ "), expected "
          ++ expected ∧
      (digits got.text).length = 10 ∧
      (∀ c ∈ digits expected, IsBit c) ∧
      Nat.ofDigitChars 2 (digits expected) 0 = s.expected.toNat ∧
      ((digits expected).length = 10 ↔ s.expected.toNat < 1024) := by
  refine ⟨?_, fun hwidth => ?_, ?_⟩
  · rw [digits_grouped]
    exact ⟨fun c => isBit_of_mem_binary, ofDigitChars_binary width n,
      fun k hk => length_binary_le_iff hk⟩
  · rw [digits_grouped, ofDigitChars_binary, length_binary_eq_iff hwidth]
    constructor
    · rintro ⟨fits, -⟩
      exact fits
    · intro fits
      exact ⟨fits, (Nat.mod_eq_of_lt fits).symm⟩
  · obtain ⟨front, htext⟩ := Capture.Deviation.text_symbol row s got disparity
    refine ⟨front, grouped 10 s.expected.toNat, htext, got.length_digits_text, ?_⟩
    rw [digits_grouped]
    exact ⟨fun c => isBit_of_mem_binary, ofDigitChars_binary 10 _, length_binary_eq_iff (by omega)⟩

/-- A number with as many digits as the width says, and one with more. -/
theorem length_digits_grouped_ten :
    (0 < 10 ∧ (digits (grouped 10 1)).length = 10 ∧
      Nat.ofDigitChars 2 (digits (grouped 10 1)) 0 = 1 % 2 ^ 10) ∧
    0 < 10 ∧ ¬ (digits (grouped 10 1024)).length ≤ 10 := by
  have positive : 0 < 10 := by decide
  obtain ⟨-, fits, -⟩ := length_digits_grouped 10 1 1 ⟨0, true, 0, 1⟩ ⟨false, .xor, 0⟩ (-8)
  obtain ⟨⟨-, -, needs⟩, -⟩ := length_digits_grouped 10 1024 1 ⟨0, true, 0, 1⟩ ⟨false, .xor, 0⟩ (-8)
  refine ⟨⟨positive, (fits positive).mpr (by decide)⟩, positive, ?_⟩
  rw [needs 10 positive]
  decide

/-- **The width does not limit the digits.**  The least number beyond ten bits is written with
eleven digits, so the low ten bits are not all that is told of it, and so is a recorded symbol that
holds it. -/
theorem grouped_beyond_width :
    ¬ (∀ (n : UInt16) (width : Nat), 1 ≤ width → width ≤ 65535 →
      (digits (grouped width n.toNat)).length = width ∧
      Nat.ofDigitChars 2 (digits (grouped width n.toNat)) 0 = n.toNat % 2 ^ width) ∧
    grouped 10 1024 = "100 0000 0000" ∧
    Capture.Deviation.text ⟨1, ⟨0, true, 0, 1024⟩, .symbol ⟨false, .xor, 0⟩ (-8)⟩
      = "row 1: data_in 0x00, de 1, ctrl 0: encoded 01 0000 0000 (cnt -8), expected 100 0000 0000" := by
  refine ⟨fun h => ?_, by decide +kernel, by decide +kernel⟩
  have eleven : (digits (grouped 10 1024)).length = 11 := by decide +kernel
  have ten : (digits (grouped 10 1024)).length = 10 := (h 1024 10 (by omega) (by omega)).1
  omega

end LineCode
