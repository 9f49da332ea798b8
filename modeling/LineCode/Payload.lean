import LineCode.Selector

/-!
# Payload

What one symbol carries: a byte in a data period, a selector in a control period.  Which period it
is travels beside the symbol.
-/

namespace LineCode

inductive Payload where
  | data (byte : UInt8)
  | control (selector : Selector)
  deriving DecidableEq

namespace Payload

/-- The payload that three raw inputs describe.  Both numbers have to be in range, also the one that
the period does not use. -/
def ofInputs (data : Int) (dataPeriod : Bool) (control : Int) : Except OutOfRange Payload := do
  let byte ← Quantity.data.accept data
  let selector ← Selector.ofInt control
  return if dataPeriod then .data (UInt8.ofNat byte) else .control selector

/-- The payload of a received symbol, given the period it arrived in.  In a control period a symbol
that is none of the four carries nothing. -/
def ofSymbol? (s : Symbol) (dataPeriod : Bool) : Option Payload :=
  if dataPeriod then some (.data s.decode) else (Selector.ofSymbol? s).map .control

def isData : Payload → Bool
  | data _ => true
  | control _ => false

@[simp] theorem isData_data (b : UInt8) : (data b).isData = true := rfl

@[simp] theorem isData_control (c : Selector) : (control c).isData = false := rfl

end Payload

end LineCode
