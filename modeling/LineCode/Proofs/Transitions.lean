import LineCode.Encoder
import LineCode.Proofs.Bits
import LineCode.Proofs.Operator

/-!
# Changes between neighbouring bits

Accumulating a byte makes a change wherever a bit is set (`xor`) or clear (`xnor`), bit 0 apart.
The operator of a byte is chosen so that at most three of the seven places change, and inversion
keeps every change.  The symbols of the control periods change at six places, so no data symbol is
one of them.
-/

namespace LineCode

/-- How often neighbouring bits of a byte differ. -/
def changes (w : UInt8) : Nat :=
  (List.range 7).countP fun n => w.toNat.testBit n != w.toNat.testBit (n + 1)

/-! ## Changes as a population count -/

theorem testBit_shiftLeft_one (w : UInt8) {n : Nat} (hn : n + 1 < 8) :
    (w <<< 1).toNat.testBit (n + 1) = w.toNat.testBit n := by
  rw [testBit_toNat, testBit_toNat, UInt8.toBitVec_shiftLeft]
  simp [hn, BitVec.getLsbD_eq_getElem (show n < 8 by omega)]

/-- The changes are the bits of the difference, bit 0 apart. -/
theorem changes_eq_ones (w : UInt8) : changes w = ones (Operator.xor.difference w &&& 0xFE) := by
  have above : ∀ n < 7, (0xFE : UInt8).toNat.testBit (n + 1) = true := by decide
  rw [ones_eq_countP, List.range_succ_eq_map, List.countP_cons_of_neg (by simp), List.countP_map,
    changes]
  refine List.countP_congr fun n hn => ?_
  have hn := List.mem_range.mp hn
  rw [Function.comp_apply, Nat.succ_eq_add_one, UInt8.toNat_and, Nat.testBit_and, above n hn,
    Operator.difference_xor, joinBelow, UInt8.toNat_xor, Nat.testBit_xor,
    testBit_shiftLeft_one w (by omega), Bool.and_true]
  cases w.toNat.testBit n <;> cases w.toNat.testBit (n + 1) <;> decide

theorem changes_complement (w : UInt8) : changes (~~~ w) = changes w := by
  refine List.countP_congr fun n hn => ?_
  have hn := List.mem_range.mp hn
  rw [testBit_complement w (by omega), testBit_complement w (by omega)]
  cases w.toNat.testBit n <;> cases w.toNat.testBit (n + 1) <;> decide

/-! ## Minimized bytes -/

theorem changes_accumulate_xor (b : UInt8) :
    changes (Operator.xor.accumulate b) = ones (b &&& 0xFE) := by
  rw [changes_eq_ones, Operator.difference_accumulate]

theorem changes_accumulate_xnor (b : UInt8) :
    changes (Operator.xnor.accumulate b) = ones (~~~ b &&& 0xFE) := by
  have h := Operator.difference_accumulate .xnor b
  rw [Operator.difference_xnor] at h
  have turned : Operator.xor.difference (Operator.xnor.accumulate b) = b ^^^ 0xFE := by
    rw [← h, UInt8.xor_assoc, UInt8.xor_self, UInt8.xor_zero, h]
  have masked : (b ^^^ 0xFE) &&& 0xFE = ~~~ b &&& 0xFE := by
    simp only [← UInt8.toBitVec_inj, UInt8.toBitVec_and, UInt8.toBitVec_xor, UInt8.toBitVec_not]
    generalize b.toBitVec = x
    decide +revert +kernel
  rw [changes_eq_ones, turned, masked]

theorem ones_eq_above_add (b : UInt8) :
    ones b = ones (b &&& 0xFE) + if b &&& 1 = 0 then 0 else 1 := by
  have h := ones_and_add_ones_complement_and 0xFE b
  have h0 : ~~~ (0xFE : UInt8) &&& b = b &&& 1 := UInt8.and_comm ..
  have low : b &&& 1 = 0 ∨ b &&& 1 = 1 := by
    rw [← UInt8.toNat_inj, ← UInt8.toNat_inj, UInt8.toNat_and]
    simp only [UInt8.reduceToNat, Nat.and_one_is_mod]
    omega
  rw [h0, UInt8.and_comm] at h
  rw [← h]
  rcases low with h1 | h1 <;> rw [h1] <;> rfl

/-- **At most three of the seven places of a minimized byte change.** -/
theorem changes_ofByte_le (b : UInt8) : changes (Minimized.ofByte b).bits ≤ 3 := by
  have total := ones_eq_above_add b
  have rest : ones (b &&& 0xFE) + ones (~~~ b &&& 0xFE) = 7 :=
    ones_and_add_ones_complement_and b 0xFE
  by_cases most : 4 < ones b ∨ (ones b = 4 ∧ b &&& 1 = 0)
  · -- at least four bits above bit 0 are set, so at most three are clear
    have four : 4 ≤ ones (b &&& 0xFE) := by
      by_cases h0 : b &&& 1 = 0
      · rw [if_pos h0] at total; omega
      · rw [if_neg h0] at total
        have := most.resolve_right fun h => h0 h.2
        omega
    rw [Minimized.ofByte, Minimized.operatorOf, if_pos most, changes_accumulate_xnor]
    omega
  · have three : ones (b &&& 0xFE) ≤ 3 := by
      rw [not_or, not_and] at most
      by_cases h0 : b &&& 1 = 0
      · have := most.1
        have : ones b ≠ 4 := fun h => most.2 h h0
        rw [if_pos h0] at total; omega
      · rw [if_neg h0] at total; omega
    rw [Minimized.ofByte, Minimized.operatorOf, if_neg most, changes_accumulate_xor]
    exact three

/-! ## Data symbols and control symbols -/

theorem changes_balance (m : Minimized) (k : Balance) :
    changes (k.symbol m).data = changes m.bits := by
  rcases m with ⟨_ | _, w⟩ <;> cases k <;>
    simp only [Balance.symbol, changes_complement]

theorem changes_encodeData_le (e : Encoder) (b : UInt8) :
    changes (e.encodeData b).1.data ≤ 3 := by
  rw [Encoder.encodeData, changes_balance]
  exact changes_ofByte_le b

theorem Selector.changes_symbol (c : Selector) : changes c.symbol.data = 6 := by
  cases c <;> decide

/-- **No data symbol is the symbol of a control period**, at whatever disparity it is sent. -/
theorem Selector.symbol_ne_encodeData (e : Encoder) (b : UInt8) (c : Selector) :
    c.symbol ≠ (e.encodeData b).1 := by
  intro h
  have few := changes_encodeData_le e b
  rw [← h, c.changes_symbol] at few
  omega

end LineCode
