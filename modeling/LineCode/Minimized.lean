import LineCode.Operator

/-!
# Transition minimization

Of the two running combinations of a byte the one with fewer changes between neighbouring bits is
taken.  Which one that is can be read off the byte: `xnor` where most bits are set.
-/

namespace LineCode

/-- A byte as running bits, with the operator that joins them. -/
structure Minimized where
  operator : Operator
  bits : UInt8
  deriving DecidableEq

namespace Minimized

/-- The operator for a byte: `xnor` if more than four bits are set, or four with bit 0 clear. -/
def operatorOf (b : UInt8) : Operator :=
  if 4 < ones b ∨ (ones b = 4 ∧ b &&& 1 = 0) then .xnor else .xor

def ofByte (b : UInt8) : Minimized :=
  ⟨operatorOf b, (operatorOf b).accumulate b⟩

/-- The byte that the running bits stand for. -/
def byte (m : Minimized) : UInt8 :=
  m.operator.difference m.bits

/-- The nine bits as a number: the operator above the running bits. -/
def toNat (m : Minimized) : Nat :=
  256 * m.operator.flag + m.bits.toNat

/-- Running bits that are set less running bits that are clear. -/
def excess (m : Minimized) : Int :=
  LineCode.excess m.bits

end Minimized

end LineCode
