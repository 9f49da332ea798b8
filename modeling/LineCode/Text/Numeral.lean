/-!
# Written numbers

The two written forms that reports and log lines use: binary digits in groups of four, counted from
the right, and capital hexadecimal digits.  A width is a minimum: shorter numbers get leading
zeros, longer ones keep all their digits.
-/

namespace LineCode.Numeral

/-! ## Binary -/

/-- The binary digits of `n`, the highest first, with leading zeros up to `width` digits. -/
def binary (width n : Nat) : List Char :=
  (Nat.toDigits 2 n).leftpad width '0'

/-- Puts a blank after every fourth digit that another digit follows.  Applied to digits whose
lowest comes first, it separates the groups of four. -/
def separateFours : List Char → List Char
  | a :: b :: c :: d :: e :: rest => a :: b :: c :: d :: ' ' :: separateFours (e :: rest)
  | short => short

/-- Digits, the highest first, in groups of four counted from the right. -/
def groupFours (digits : List Char) : List Char :=
  (separateFours digits.reverse).reverse

/-- The binary digits of `n` in groups of four. -/
def grouped (width n : Nat) : String :=
  String.ofList (groupFours (binary width n))

@[simp] theorem length_binary (width n : Nat) :
    (binary width n).length = max width (Nat.toDigits 2 n).length := by
  simp [binary, List.leftpad]; omega

/-! ## Hexadecimal -/

/-- The capital hexadecimal digits of `n`, with leading zeros up to `width` digits. -/
def hex (width n : Nat) : String :=
  String.ofList (((Nat.toDigits 16 n).map Char.toUpper).leftpad width '0')

/-- A byte as two capital hexadecimal digits. -/
def hexByte (b : UInt8) : String :=
  hex 2 b.toNat

theorem length_hex (width n : Nat) :
    (hex width n).length = max width (Nat.toDigits 16 n).length := by
  simp [hex, List.leftpad]; omega

/-- The width is enough for every byte. -/
theorem length_hexByte (b : UInt8) : (hexByte b).length = 2 := by
  have two : (Nat.toDigits 16 b.toNat).length ≤ 2 :=
    (Nat.length_toDigits_le_iff (by decide) (by decide)).mpr b.toNat_lt
  rw [hexByte, length_hex, Nat.max_eq_left two]

example : hexByte 10 = "0A" := by decide +kernel

end LineCode.Numeral
