import LineCode.Proofs.Disparity
import LineCode.Proofs.Recovery

/-!
# The balancing choice

Two symbols carry a byte under its operator, one the inversion of the other but for the bit that
names the operator.  Which one is sent is decided by the running bits alone, and still it is the one
that leaves the disparity nearer to zero: the two bits above the data bits shift both candidates
alike, so the two disparities mirror each other about an odd number next to zero.
-/

namespace LineCode

namespace Symbol

/-- The other symbol that carries the byte under the same operator. -/
def mirrored (s : Symbol) : Symbol :=
  ⟨!s.inverted, s.operator, ~~~ s.data⟩

@[simp] theorem decode_mirrored (s : Symbol) : s.mirrored.decode = s.decode := by
  rcases s with ⟨_ | _, op, w⟩ <;> simp [mirrored, decode]

/-- What a symbol and its mirror image contribute together. -/
theorem disparity_add_mirrored (s : Symbol) :
    s.disparity + s.mirrored.disparity = 4 * s.operator.flag - 2 := by
  rcases s with ⟨_ | _, _ | _, w⟩ <;>
    simp [mirrored, disparity, excess_complement, Operator.flag] <;> omega

end Symbol

theorem Minimized.excess_ne_zero_iff (m : Minimized) : m.excess ≠ 0 ↔ ones m.bits ≠ 4 := by
  rw [excess, LineCode.excess]
  omega

/-- A symbol is chosen whose disparity lies on the side that leads towards zero, seen from half of
what it and its mirror image contribute together. -/
theorem Balance.choose_inclines (c : Int) {m : Minimized} (hm : m.excess ≠ 0) :
    (0 < c → 2 * (choose c m.excess).change m ≤ 4 * m.operator.flag - 2) ∧
    (c < 0 → 4 * m.operator.flag - 2 ≤ 2 * (choose c m.excess).change m) := by
  have flag := m.operator.flag_le_one
  unfold choose
  by_cases hc : c = 0
  · omega
  rw [if_neg (not_or.mpr ⟨hc, hm⟩)]
  by_cases same : 0 < c ↔ 0 < m.excess
  · rw [if_pos same, change]
    constructor <;> omega
  · rw [if_neg same, change]
    constructor <;> omega

namespace Encoder

/-- **The balancing choice is the better one.**  Off zero, a byte whose running bits are not even is
sent as the symbol that leaves the disparity nearer to zero than its mirror image would, which
carries the byte as well.  The two are equally good at one disparity only, next to zero on the side
that the operator decides. -/
theorem encodeData_nearest (e : Encoder) (b : UInt8) (off : e.disparity ≠ 0)
    (uneven : ones (Minimized.ofByte b).bits ≠ 4) :
    let s := (e.encodeData b).1
    s.mirrored.decode = b ∧
    (e.disparity + s.disparity).natAbs ≤ (e.disparity + s.mirrored.disparity).natAbs ∧
    ((e.disparity + s.disparity).natAbs = (e.disparity + s.mirrored.disparity).natAbs ↔
      e.disparity = 1 - 2 * s.operator.flag) := by
  intro s
  have carried : s.mirrored.decode = b := by
    rw [Symbol.decode_mirrored]
    exact decode_encodeData e b
  have operator : s.operator = (Minimized.ofByte b).operator := Balance.symbol_operator ..
  have sent : s.disparity = e.delta b := (Balance.change_eq_disparity ..).symm
  have together := s.disparity_add_mirrored
  obtain ⟨down, up⟩ := Balance.choose_inclines e.disparity
    ((Minimized.excess_ne_zero_iff (.ofByte b)).mpr uneven)
  rw [← operator] at down up
  change 0 < e.disparity → 2 * e.delta b ≤ _ at down
  change e.disparity < 0 → _ ≤ 2 * e.delta b at up
  have even := (e.steers_delta b).even
  have flag := s.operator.flag_le_one
  refine ⟨carried, ?_, ?_⟩ <;> omega

/-- At -1 a byte without set bits is sent equally well either way. -/
theorem encodeData_nearest_tie :
    (-1 : Int) ≠ 0 ∧ ones (Minimized.ofByte 0x00).bits ≠ 4 ∧
    (encodeData ⟨-1⟩ 0x00).1.mirrored.decode = 0x00 ∧
    (-1 + (encodeData ⟨-1⟩ 0x00).1.disparity).natAbs
      = (-1 + (encodeData ⟨-1⟩ 0x00).1.mirrored.disparity).natAbs :=
  have h := encodeData_nearest ⟨-1⟩ 0x00 (by decide) (by decide)
  ⟨by decide, by decide, h.1, h.2.2.mpr (by decide)⟩

end Encoder

end LineCode
