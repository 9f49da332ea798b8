import LineCode.Symbol

/-!
# Balancing

The running disparity of a line counts the bits sent set less the bits sent clear.  The running bits
of a byte go out as they are or inverted, whichever takes the disparity back towards zero.
-/

namespace LineCode

/-- The three ways of sending running bits. -/
inductive Balance where
  | neutral
  | invert
  | keep
  deriving DecidableEq

namespace Balance

/-- Nothing is to be balanced if the line or the running bits are even.  Otherwise they are inverted
where they would take the disparity further from zero. -/
def choose (disparity excess : Int) : Balance :=
  if disparity = 0 ∨ excess = 0 then .neutral
  else if 0 < disparity ↔ 0 < excess then .invert
  else .keep

/-- The symbol that is sent.  Where nothing is to be balanced the operator decides. -/
def symbol (m : Minimized) : Balance → Symbol
  | neutral =>
    match m.operator with
    | .xor => ⟨false, .xor, m.bits⟩
    | .xnor => ⟨true, .xnor, ~~~ m.bits⟩
  | invert => ⟨true, m.operator, ~~~ m.bits⟩
  | keep => ⟨false, m.operator, m.bits⟩

/-- By how much the running disparity changes. -/
def change (m : Minimized) : Balance → Int
  | neutral =>
    match m.operator with
    | .xor => m.excess
    | .xnor => - m.excess
  | invert => 2 * m.operator.flag - m.excess
  | keep => m.excess - 2 * (1 - m.operator.flag)

/-- Every way of sending tells the operator. -/
@[simp] theorem symbol_operator (m : Minimized) (b : Balance) :
    (b.symbol m).operator = m.operator := by
  rcases m with ⟨_ | _, _⟩ <;> cases b <;> rfl

/-- The disparity changes by what the ten bits of the symbol contribute. -/
theorem change_eq_disparity (m : Minimized) (b : Balance) :
    b.change m = (b.symbol m).disparity := by
  rcases m with ⟨_ | _, w⟩ <;> cases b <;>
    simp [change, symbol, Symbol.disparity, Minimized.excess, excess_complement, Operator.flag] <;>
    omega

end Balance

end LineCode
