import LineCode.Operator

/-!
# The operators undo each other

Joining each bit to the one `k` places below it is linear over two elements, so doing it twice
joins each bit to the one `2 * k` places below it, and eight places below there is none.  Hence the
shifts by one, two and four places of `accumulate` are taken back by the one shift of `difference`,
and the constants that `xnor` adds on either side correspond to each other.
-/

namespace LineCode

/-! ## One join -/

/-- Joins each bit of a byte to the one `k` places below it. -/
def joinBelow (k w : UInt8) : UInt8 :=
  w ^^^ (w <<< k)

theorem shiftLeft_right_comm (w j k : UInt8) : w <<< j <<< k = w <<< k <<< j := by
  simp only [← UInt8.toBitVec_inj, UInt8.toBitVec_shiftLeft, BitVec.shiftLeft_eq',
    ← BitVec.shiftLeft_add, Nat.add_comm]

theorem joinBelow_xor (k v w : UInt8) :
    joinBelow k (v ^^^ w) = joinBelow k v ^^^ joinBelow k w := by
  simp only [joinBelow, UInt8.shiftLeft_xor]
  ac_rfl

theorem joinBelow_comm (j k w : UInt8) :
    joinBelow j (joinBelow k w) = joinBelow k (joinBelow j w) := by
  simp only [joinBelow, UInt8.shiftLeft_xor, shiftLeft_right_comm w k j]
  ac_rfl

theorem joinBelow_twice (k w : UInt8) : joinBelow k (joinBelow k w) = w ^^^ (w <<< k <<< k) := by
  simp only [joinBelow, UInt8.shiftLeft_xor]
  calc w ^^^ w <<< k ^^^ (w <<< k ^^^ w <<< k <<< k)
      = w ^^^ (w <<< k ^^^ w <<< k) ^^^ w <<< k <<< k := by ac_rfl
    _ = w ^^^ w <<< k <<< k := by rw [UInt8.xor_self, UInt8.xor_zero]

theorem joinBelow_one_twice (w : UInt8) : joinBelow 1 (joinBelow 1 w) = joinBelow 2 w := by
  rw [joinBelow_twice, joinBelow, ← UInt8.shiftLeft_add (by decide) (by decide) (by decide)]
  rfl

theorem joinBelow_two_twice (w : UInt8) : joinBelow 2 (joinBelow 2 w) = joinBelow 4 w := by
  rw [joinBelow_twice, joinBelow, ← UInt8.shiftLeft_add (by decide) (by decide) (by decide)]
  rfl

theorem joinBelow_four_twice (w : UInt8) : joinBelow 4 (joinBelow 4 w) = w := by
  have gone : w <<< 4 <<< 4 = 0 := by
    simp [← UInt8.toBitVec_inj, ← BitVec.shiftLeft_add]
  rw [joinBelow_twice, gone, UInt8.xor_zero]

namespace Operator

/-! ## The operators as joins -/

theorem accumulate_xor (b : UInt8) :
    xor.accumulate b = joinBelow 4 (joinBelow 2 (joinBelow 1 b)) := rfl

theorem accumulate_xnor (b : UInt8) : xnor.accumulate b = xor.accumulate b ^^^ 0xAA := rfl

theorem difference_xor (w : UInt8) : xor.difference w = joinBelow 1 w := rfl

theorem difference_xnor (w : UInt8) : xnor.difference w = xor.difference w ^^^ 0xFE := rfl

/-! ## Inverses -/

theorem difference_accumulate_xor (b : UInt8) : xor.difference (xor.accumulate b) = b := by
  rw [difference_xor, accumulate_xor, joinBelow_comm 1 4, joinBelow_comm 1 2,
    joinBelow_one_twice, joinBelow_two_twice, joinBelow_four_twice]

theorem accumulate_difference_xor (w : UInt8) : xor.accumulate (xor.difference w) = w := by
  rw [difference_xor, accumulate_xor, joinBelow_one_twice, joinBelow_two_twice,
    joinBelow_four_twice]

/-- **Running bits are taken apart again.** -/
@[simp] theorem difference_accumulate (op : Operator) (b : UInt8) :
    op.difference (op.accumulate b) = b := by
  cases op with
  | xor => exact difference_accumulate_xor b
  | xnor =>
    have constants : joinBelow 1 0xAA ^^^ 0xFE = 0 := by decide
    rw [difference_xnor, accumulate_xnor, difference_xor, joinBelow_xor, ← difference_xor,
      difference_accumulate_xor, UInt8.xor_assoc, constants, UInt8.xor_zero]

/-- Every byte is the running combination of exactly one other, under either operator. -/
@[simp] theorem accumulate_difference (op : Operator) (w : UInt8) :
    op.accumulate (op.difference w) = w := by
  cases op with
  | xor => exact accumulate_difference_xor w
  | xnor =>
    have constants : xor.accumulate 0xFE ^^^ 0xAA = 0 := by decide
    have linear : xor.accumulate (xor.difference w ^^^ 0xFE)
        = xor.accumulate (xor.difference w) ^^^ xor.accumulate 0xFE := by
      simp only [accumulate_xor, joinBelow_xor]
    rw [difference_xnor, accumulate_xnor, linear, accumulate_difference_xor, UInt8.xor_assoc,
      constants, UInt8.xor_zero]

end Operator

end LineCode
