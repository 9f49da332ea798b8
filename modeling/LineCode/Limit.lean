/-!
# Limits

A data byte, the selector of a control period and a symbol arrive as numbers.  Each has a limit of
its own, and a number outside `0..=limit` is refused before anything else happens.
-/

namespace LineCode

/-- The numbers that are checked against a limit. -/
inductive Quantity where
  | data
  | control
  | symbol
  deriving DecidableEq

/-- The largest number that is in range. -/
def Quantity.limit : Quantity → Nat
  | .data => 255
  | .control => 3
  | .symbol => 1023

def Quantity.name : Quantity → String
  | .data => "data"
  | .control => "control"
  | .symbol => "symbol"

/-- Why a number was refused. -/
structure OutOfRange where
  quantity : Quantity
  value : Int
  deriving DecidableEq

def OutOfRange.message (e : OutOfRange) : String :=
  e.quantity.name ++ " value " ++ toString e.value ++ " is out of range 0..="
    ++ toString e.quantity.limit

/-- Whether a number is within the limit. -/
def Quantity.Accepts (q : Quantity) (n : Int) : Prop :=
  0 ≤ n ∧ n ≤ q.limit

instance (q : Quantity) (n : Int) : Decidable (q.Accepts n) :=
  inferInstanceAs (Decidable (_ ∧ _))

/-- The number itself, without its sign, if it is within the limit. -/
def Quantity.accept (q : Quantity) (n : Int) : Except OutOfRange Nat :=
  if q.Accepts n then .ok n.toNat else .error ⟨q, n⟩

theorem Quantity.accept_of_accepts {q : Quantity} {n : Int} (h : q.Accepts n) :
    q.accept n = .ok n.toNat :=
  if_pos h

theorem Quantity.accept_of_not_accepts {q : Quantity} {n : Int} (h : ¬ q.Accepts n) :
    q.accept n = .error ⟨q, n⟩ :=
  if_neg h

end LineCode
