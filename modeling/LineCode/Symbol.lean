import LineCode.Limit
import LineCode.Minimized
import LineCode.Text.Numeral

/-!
# Symbols

A symbol is what goes over the line for one byte: its eight data bits, above them the bit that
names the operator, and on top the bit that says whether the data bits were inverted.  It is a
number below 1024 and travels as two bytes, the higher first.
-/

namespace LineCode

structure Symbol where
  inverted : Bool
  operator : Operator
  data : UInt8
  deriving DecidableEq

namespace Symbol

/-! ## As a number and as bytes -/

/-- The value of the two bits above the data bits. -/
def flags (s : Symbol) : Nat :=
  2 * s.inverted.toNat + s.operator.flag

def toNat (s : Symbol) : Nat :=
  256 * s.flags + s.data.toNat

/-- The symbol with the given ten low bits. -/
def ofBits (n : Nat) : Symbol :=
  ⟨n.testBit 9, Operator.ofFlag (n.testBit 8), UInt8.ofNat n⟩

/-- The symbol with the given value, which has to fit ten bits. -/
def ofInt (n : Int) : Except OutOfRange Symbol :=
  (Quantity.symbol.accept n).map ofBits

/-- The two bytes that carry a symbol, the higher first. -/
def bytes (s : Symbol) : List UInt8 :=
  [UInt8.ofNat s.flags, s.data]

/-- The number that two bytes spell, the higher first. -/
def pairValue (high low : UInt8) : Nat :=
  256 * high.toNat + low.toNat

theorem flags_lt (s : Symbol) : s.flags < 4 := by
  rcases s with ⟨_ | _, _ | _, _⟩ <;> simp [flags, Operator.flag]

theorem toNat_lt (s : Symbol) : s.toNat < 1024 := by
  have := s.flags_lt
  have := s.data.toNat_lt
  simp only [toNat]; omega

/-- A symbol is recovered from its value. -/
@[simp] theorem ofBits_toNat (s : Symbol) : ofBits s.toNat = s := by
  obtain ⟨i, o, d⟩ := s
  have hd := d.toNat_lt
  have data : UInt8.ofNat (256 * (2 * i.toNat + o.flag) + d.toNat) = d := by
    apply UInt8.toNat_inj.mp
    simp only [UInt8.toNat_ofNat']
    omega
  simp only [ofBits, toNat, flags, data]
  cases i <;> cases o <;>
    simp [Operator.flag, Operator.ofFlag, Nat.testBit_eq_decide_div_mod_eq] <;> omega

theorem ofInt_of_lt {n : Nat} (h : n < 1024) : ofInt n = .ok (ofBits n) := by
  have accepted : Quantity.symbol.Accepts n := by
    simp only [Quantity.Accepts, Quantity.limit]; omega
  rw [ofInt, Quantity.accept_of_accepts accepted]
  rfl

theorem ofInt_of_le {n : Nat} (h : 1024 ≤ n) : ofInt n = .error ⟨.symbol, n⟩ := by
  have refused : ¬ Quantity.symbol.Accepts n := by
    simp only [Quantity.Accepts, Quantity.limit]; omega
  rw [ofInt, Quantity.accept_of_not_accepts refused]
  rfl

theorem ofInt_toNat (s : Symbol) : ofInt s.toNat = .ok s := by
  rw [ofInt_of_lt s.toNat_lt, ofBits_toNat]

/-- The two bytes of a symbol spell its value. -/
theorem pairValue_bytes (s : Symbol) : pairValue (UInt8.ofNat s.flags) s.data = s.toNat := by
  have := s.flags_lt
  simp [pairValue, toNat, UInt8.toNat_ofNat']
  omega

/-! ## What it stands for -/

/-- Bits that are set less bits that are clear, over all ten. -/
def disparity (s : Symbol) : Int :=
  excess s.data + (if s.inverted then 1 else -1) + (match s.operator with | .xor => 1 | .xnor => -1)

/-- The byte that a symbol of a data period carries. -/
def decode (s : Symbol) : UInt8 :=
  s.operator.difference (if s.inverted then ~~~ s.data else s.data)

/-- The byte that the symbol with the given value carries. -/
def decodeInt (n : Int) : Except OutOfRange UInt8 :=
  (ofInt n).map decode

/-! ## Written forms -/

/-- The ten bits in groups of four. -/
def text (s : Symbol) : String :=
  Numeral.grouped 10 s.toNat

/-- The symbol as a constructed value, on one line. -/
def inspect (s : Symbol) : String :=
  "Symbol(" ++ s.text ++ ")"

/-- The symbol as a constructed value, its bits on an indented line of their own. -/
def inspectIndented (s : Symbol) : String :=
  "Symbol(\n    " ++ s.text ++ ",\n)"

/-- The bits without groups and without leading zeros beyond `width` digits. -/
def binary (width : Nat) (s : Symbol) : String :=
  String.ofList (Numeral.binary width s.toNat)

end Symbol

end LineCode
