/-!
# The two operators

A byte goes out as a running combination of its bits: each bit is joined to the one sent before it
by `xor`, or by its complement `xnor`.  `accumulate` computes all eight running bits of a byte at
once, `difference` takes them apart again.
-/

namespace LineCode

inductive Operator where
  | xor
  | xnor
  deriving DecidableEq

namespace Operator

/-- Bit `n` of the result is bit `n` of the byte joined to bit `n - 1` of the result.  After shifts
by one, two and four places each bit holds the parity of itself and all bits below; `xnor` turns
every second one of them over, beginning with bit 1. -/
def accumulate (op : Operator) (b : UInt8) : UInt8 :=
  let pairs := b ^^^ (b <<< 1)
  let fours := pairs ^^^ (pairs <<< 2)
  let parity := fours ^^^ (fours <<< 4)
  match op with
  | .xor => parity
  | .xnor => parity ^^^ 0xAA

/-- Bit `n` of the result is bit `n` of the word joined to bit `n - 1` of the word, and bit 0 stays
as it is. -/
def difference (op : Operator) (w : UInt8) : UInt8 :=
  let joined := w ^^^ (w <<< 1)
  match op with
  | .xor => joined
  | .xnor => joined ^^^ 0xFE

/-- The value of the bit that names the operator. -/
def flag : Operator → Nat
  | .xor => 1
  | .xnor => 0

theorem flag_le_one (op : Operator) : op.flag ≤ 1 := by
  cases op <;> decide

def ofFlag (isXor : Bool) : Operator :=
  if isXor then .xor else .xnor

end Operator

/-- The number of bits of a byte that are set. -/
def ones (b : UInt8) : Nat :=
  b.toBitVec.cpop.toNat

/-- Bits that are set less bits that are clear. -/
def excess (b : UInt8) : Int :=
  2 * ones b - 8

theorem ones_le (b : UInt8) : ones b ≤ 8 := by
  simpa [ones] using BitVec.toNat_cpop_le b.toBitVec

theorem excess_complement (b : UInt8) : excess (~~~ b) = - excess b := by
  simp only [excess, ones]
  have := BitVec.toNat_cpop_not (x := b.toBitVec)
  have h := BitVec.toNat_cpop_le b.toBitVec
  simp at *
  omega

end LineCode
