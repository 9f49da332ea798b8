import LineCode.Symbol

/-!
# Control periods

Between runs of data one of four selectors is sent, each as a fixed symbol.
-/

namespace LineCode

inductive Selector where
  | c0
  | c1
  | c2
  | c3
  deriving DecidableEq

namespace Selector

def all : List Selector :=
  [c0, c1, c2, c3]

def index : Selector → Nat
  | c0 => 0
  | c1 => 1
  | c2 => 2
  | c3 => 3

def name : Selector → String
  | c0 => "C0"
  | c1 => "C1"
  | c2 => "C2"
  | c3 => "C3"

/-- The symbol of a selector.  Its data bits change at least six times from bit to bit, which those
of a data symbol never do. -/
def symbol : Selector → Symbol
  | c0 => ⟨true, .xor, 0b01010100⟩
  | c1 => ⟨false, .xnor, 0b10101011⟩
  | c2 => ⟨false, .xor, 0b01010100⟩
  | c3 => ⟨true, .xnor, 0b10101011⟩

/-- The selector with the given index, counted again from zero past the fourth. -/
def ofIndex (n : Nat) : Selector :=
  match n % 4 with
  | 0 => c0
  | 1 => c1
  | 2 => c2
  | _ => c3

/-- The selector with the given index, which has to be one of `0` to `3`. -/
def ofInt (n : Int) : Except OutOfRange Selector :=
  (Quantity.control.accept n).map ofIndex

/-- The selector that a symbol stands for in a control period, if it is one of the four. -/
def ofSymbol? (s : Symbol) : Option Selector :=
  all.find? fun c => c.symbol = s

@[simp] theorem ofIndex_index (c : Selector) : ofIndex c.index = c := by
  cases c <;> rfl

@[simp] theorem ofSymbol?_symbol (c : Selector) : ofSymbol? c.symbol = some c := by
  cases c <;> decide

/-- Distinct selectors have distinct symbols. -/
theorem symbol_injective {c d : Selector} (h : c.symbol = d.symbol) : c = d := by
  simpa using congrArg ofSymbol? h

/-- A symbol is read as a selector exactly if it is the selector's symbol. -/
theorem ofSymbol?_eq_some_iff {s : Symbol} {c : Selector} :
    ofSymbol? s = some c ↔ c.symbol = s := by
  refine ⟨fun h => ?_, fun h => h ▸ ofSymbol?_symbol c⟩
  simpa using List.find?_some h

end Selector

end LineCode
