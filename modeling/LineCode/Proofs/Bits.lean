import Mathlib.Data.Bool.Count
import LineCode.Symbol

/-!
# Bits of bytes and symbols

The library counts bits by the population count of a byte and reads the flags of a symbol off its
fields.  Here both are brought back to the plain list of bits: `ones` and `excess` count it, and the
disparity of a symbol is what its ten bits contribute.
-/

namespace LineCode

/-! ## Bytes -/

/-- The bits of a byte, the lowest first. -/
def bits (b : UInt8) : List Bool :=
  (List.range 8).map b.toNat.testBit

/-- Entries that are set less entries that are clear. -/
def surplus (bs : List Bool) : Int :=
  bs.count true - bs.count false

@[simp] theorem length_bits (b : UInt8) : (bits b).length = 8 := by
  simp [bits]

theorem surplus_append (as bs : List Bool) : surplus (as ++ bs) = surplus as + surplus bs := by
  simp only [surplus, List.count_append]; omega

theorem testBit_toNat (b : UInt8) (n : Nat) : b.toNat.testBit n = b.toBitVec.getLsbD n := by
  rw [← UInt8.toNat_toBitVec, BitVec.testBit_toNat]

theorem cpopNatRec_eq_countP {w : Nat} (x : BitVec w) (n acc : Nat) :
    x.cpopNatRec n acc = acc + (List.range n).countP x.toNat.testBit := by
  induction n generalizing acc with
  | zero => simp
  | succ n ih =>
    rw [BitVec.cpopNatRec_succ, ih, List.range_succ, List.countP_append, ← BitVec.testBit_toNat]
    cases h : x.toNat.testBit n <;> simp [h]; omega

theorem ones_eq_countP (b : UInt8) : ones b = (List.range 8).countP b.toNat.testBit := by
  rw [ones, BitVec.toNat_cpop, cpopNatRec_eq_countP, Nat.zero_add, UInt8.toNat_toBitVec]

theorem ones_eq_count (b : UInt8) : ones b = (bits b).count true := by
  rw [ones_eq_countP, bits, List.count, List.countP_map]
  exact List.countP_congr fun n _ => by simp

theorem excess_eq_surplus (b : UInt8) : excess b = surplus (bits b) := by
  have h := List.count_true_add_count_false (bits b)
  rw [length_bits] at h
  rw [excess, surplus, ones_eq_count]; omega

theorem testBit_complement (b : UInt8) {n : Nat} (hn : n < 8) :
    (~~~ b).toNat.testBit n = !b.toNat.testBit n := by
  rw [testBit_toNat, testBit_toNat, UInt8.toBitVec_not, BitVec.getLsbD_not]
  simp [hn]

/-- Under a mask the bits that are set and the bits that are clear make up the mask. -/
theorem ones_and_add_ones_complement_and (b m : UInt8) :
    ones (b &&& m) + ones (~~~ b &&& m) = ones m := by
  have split := List.countP_eq_countP_filter_add (List.range 8) m.toNat.testBit b.toNat.testBit
  rw [List.countP_filter, List.countP_filter] at split
  rw [ones_eq_countP, ones_eq_countP, ones_eq_countP, split]
  congr 1
  · refine List.countP_congr fun n _ => ?_
    rw [UInt8.toNat_and, Nat.testBit_and, Bool.and_comm]
  · refine List.countP_congr fun n hn => ?_
    rw [UInt8.toNat_and, Nat.testBit_and, testBit_complement b (List.mem_range.mp hn),
      Bool.and_comm]

/-! ## Symbols -/

namespace Symbol

/-- The ten bits of a symbol, the lowest first. -/
def bits (s : Symbol) : List Bool :=
  (List.range 10).map s.toNat.testBit

theorem testBit_flags (s : Symbol) :
    s.flags.testBit 0 = decide (s.operator = .xor) ∧ s.flags.testBit 1 = s.inverted := by
  rcases s with ⟨_ | _, _ | _, d⟩ <;> simp [flags, Operator.flag, Nat.testBit]

/-- Above the data bits stand the bit of the operator and the bit of the inversion. -/
theorem bits_eq (s : Symbol) :
    s.bits = LineCode.bits s.data ++ [decide (s.operator = .xor), s.inverted] := by
  have low : ∀ n < 8, s.toNat.testBit n = s.data.toNat.testBit n := by
    intro n hn
    rw [toNat, Nat.testBit_two_pow_mul_add (i := 8) _ s.data.toNat_lt, if_pos hn]
  have high : ∀ n, s.toNat.testBit (n + 8) = s.flags.testBit n := by
    intro n
    rw [toNat, Nat.testBit_two_pow_mul_add (i := 8) _ s.data.toNat_lt, if_neg (by omega),
      Nat.add_sub_cancel]
  have split : List.range 10 = List.range 8 ++ [0 + 8, 1 + 8] := rfl
  rw [bits, split, List.map_append, List.map_cons, List.map_singleton, high, high,
    s.testBit_flags.1, s.testBit_flags.2, LineCode.bits,
    List.map_congr_left fun n hn => low n (List.mem_range.mp hn)]

/-- **The disparity of a symbol is what its ten bits contribute.** -/
theorem disparity_eq_surplus (s : Symbol) : s.disparity = surplus s.bits := by
  rw [bits_eq, surplus_append, ← excess_eq_surplus]
  rcases s with ⟨_ | _, _ | _, d⟩ <;> simp [disparity, surplus] <;> omega

end Symbol

end LineCode
