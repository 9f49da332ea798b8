import LineCode.Proofs.Disparity
import LineCode.Proofs.Transitions

/-!
# The line code bit by bit

The published algorithm is told in single bits: running bits computed one after another, counts of
the bits that are set and of those that are clear, and three cases that put the ten bits of a symbol
together and change the counter.  Here it stands in these words, on lists of bits with the lowest
first, and the encoder and the decoding of symbols are shown to be it.
-/

namespace LineCode

/-! ## The algorithm -/

namespace BitLevel

/-- A bit joined to the one before it. -/
def join (xnor before bit : Bool) : Bool :=
  if xnor then !(bit ^^ before) else bit ^^ before

/-- Bits joined one by one to the result so far, which ends in `before`. -/
def accumulateFrom (xnor before : Bool) : List Bool → List Bool
  | [] => []
  | bit :: rest => join xnor before bit :: accumulateFrom xnor (join xnor before bit) rest

/-- The running bits: the first as it is, and each other one joined to the running bit before it. -/
def accumulate (xnor : Bool) : List Bool → List Bool
  | [] => []
  | bit :: rest => bit :: accumulateFrom xnor bit rest

/-- Bits joined one by one to their neighbours, the first of which is `before`. -/
def differenceFrom (xnor before : Bool) : List Bool → List Bool
  | [] => []
  | bit :: rest => join xnor before bit :: differenceFrom xnor bit rest

/-- The first bit as it is, and each other one joined to the bit before it. -/
def difference (xnor : Bool) : List Bool → List Bool
  | [] => []
  | bit :: rest => bit :: differenceFrom xnor bit rest

/-- More than four bits are set, or four and the lowest is clear. -/
def UsesXnor (byte : List Bool) : Prop :=
  4 < byte.count true ∨ (byte.count true = 4 ∧ byte.head? = some false)

instance (byte : List Bool) : Decidable (UsesXnor byte) :=
  inferInstanceAs (Decidable (_ ∨ _))

/-- The ten bits of a symbol: the data bits, bit 8 and bit 9. -/
def symbol (bit9 bit8 : Bool) (data : List Bool) : List Bool :=
  data ++ [bit8, bit9]

/-- The symbol of nine running bits, of which `q8` is the highest, and the counter after it. -/
def send (counter : Int) (q8 : Bool) (q : List Bool) : List Bool × Int :=
  let set : Int := q.count true
  let clear : Int := q.count false
  if counter = 0 ∨ set = clear then
    (symbol (!q8) q8 (if q8 then q else q.map (! ·)),
      counter + if q8 then set - clear else clear - set)
  else if (0 < counter ∧ clear < set) ∨ (counter < 0 ∧ set < clear) then
    (symbol true q8 (q.map (! ·)), counter + (2 * q8.toNat + clear - set))
  else
    (symbol false q8 q, counter + (-2 * (!q8).toNat + set - clear))

/-- The symbol of a byte and the counter after it. -/
def encode (counter : Int) (byte : List Bool) : List Bool × Int :=
  let xnor : Bool := UsesXnor byte
  send counter (!xnor) (accumulate xnor byte)

/-- The byte of a symbol. -/
def decode (s : List Bool) : List Bool :=
  let data := s.take 8
  let xnor : Bool := s[8]? = some false
  difference xnor (if s[9]? = some true then data.map (! ·) else data)

/-- The symbols of the four control periods. -/
def controlValues : List Nat :=
  [0b1101010100, 0b0010101011, 0b0101010100, 0b1010101011]

/-- The symbol of a control period. -/
def control (index : Nat) : List Bool :=
  (List.range 10).map (controlValues.getD index 0).testBit

/-- The symbol of a payload and the counter after it. -/
def step (counter : Int) : Payload → List Bool × Int
  | .data b => encode counter (bits b)
  | .control c => (control c.index, 0)

/-- The symbols of a list of payloads, each with the counter after it. -/
def run : Int → List Payload → List (List Bool × Int)
  | _, [] => []
  | counter, p :: ps => step counter p :: run (step counter p).2 ps

/-! ## Lists of bits -/

@[simp] theorem join_join (xnor before bit : Bool) :
    join xnor before (join xnor before bit) = bit := by
  cases xnor <;> cases before <;> cases bit <;> rfl

theorem accumulateFrom_differenceFrom (xnor before : Bool) (bs : List Bool) :
    accumulateFrom xnor before (differenceFrom xnor before bs) = bs := by
  induction bs generalizing before with
  | nil => rfl
  | cons bit rest ih => rw [differenceFrom, accumulateFrom, join_join, ih]

theorem accumulate_difference (xnor : Bool) (bs : List Bool) :
    accumulate xnor (difference xnor bs) = bs := by
  cases bs with
  | nil => rfl
  | cons bit rest => rw [difference, accumulate, accumulateFrom_differenceFrom]

/-- Neighbours in a list of bits that are numbered in order. -/
theorem differenceFrom_map_range' (xnor : Bool) (t : Nat → Bool) (k n : Nat) :
    differenceFrom xnor (t k) ((List.range' (k + 1) n).map t)
      = (List.range' k n).map fun i => join xnor (t i) (t (i + 1)) := by
  induction n generalizing k with
  | zero => rfl
  | succ n ih =>
    rw [List.range'_succ, List.range'_succ, List.map_cons, List.map_cons, differenceFrom, ih]

end BitLevel

/-! ## Bytes -/

theorem bits_eq_cons (b : UInt8) :
    bits b = b.toNat.testBit 0 :: (List.range' 1 7).map b.toNat.testBit := rfl

theorem bits_complement (b : UInt8) : bits (~~~ b) = (bits b).map (! ·) := by
  rw [bits, bits, List.map_map]
  exact List.map_congr_left fun n hn => testBit_complement b (List.mem_range.mp hn)

theorem head?_bits (b : UInt8) : (bits b).head? = some false ↔ b &&& 1 = 0 := by
  have low : (b &&& 1).toNat = b.toNat % 2 := by
    rw [UInt8.toNat_and]
    exact Nat.and_one_is_mod _
  rw [bits_eq_cons, List.head?_cons, Option.some_inj, Nat.testBit_zero, decide_eq_false_iff_not,
    ← UInt8.toNat_inj, low, UInt8.toNat_zero]
  omega

namespace Operator

variable (op : Operator)

theorem testBit_difference_zero (w : UInt8) :
    (op.difference w).toNat.testBit 0 = w.toNat.testBit 0 := by
  have moved : (w <<< 1).toNat.testBit 0 = false := by
    rw [testBit_toNat, UInt8.toBitVec_shiftLeft]
    simp
  cases op with
  | xor => rw [difference_xor, joinBelow, UInt8.toNat_xor, Nat.testBit_xor, moved, Bool.xor_false]
  | xnor =>
    rw [difference_xnor, difference_xor, joinBelow, UInt8.toNat_xor, UInt8.toNat_xor,
      Nat.testBit_xor, Nat.testBit_xor, moved, Bool.xor_false]
    exact Bool.xor_false _

theorem testBit_difference_succ (w : UInt8) {n : Nat} (hn : n < 7) :
    (op.difference w).toNat.testBit (n + 1)
      = BitLevel.join (op = .xnor) (w.toNat.testBit n) (w.toNat.testBit (n + 1)) := by
  have turned : ∀ n < 7, (0xFE : UInt8).toNat.testBit (n + 1) = true := by decide
  have joined : (xor.difference w).toNat.testBit (n + 1)
      = (w.toNat.testBit (n + 1) ^^ w.toNat.testBit n) := by
    rw [difference_xor, joinBelow, UInt8.toNat_xor, Nat.testBit_xor,
      testBit_shiftLeft_one w (by omega)]
  cases op with
  | xor => exact joined
  | xnor =>
    rw [difference_xnor, UInt8.toNat_xor, Nat.testBit_xor, turned n hn, joined, Bool.xor_true]
    rfl

/-- Taking a byte of running bits apart is joining each bit to its neighbour. -/
theorem bits_difference (w : UInt8) :
    bits (op.difference w) = BitLevel.difference (op = .xnor) (bits w) := by
  have above : (List.range' 1 7).map (op.difference w).toNat.testBit
      = (List.range' 0 7).map fun n =>
          BitLevel.join (op = .xnor) (w.toNat.testBit n) (w.toNat.testBit (n + 1)) := by
    rw [List.range'_succ_left, List.map_map]
    refine List.map_congr_left fun n hn => ?_
    exact op.testBit_difference_succ w (by simpa using hn)
  rw [bits_eq_cons, bits_eq_cons w, BitLevel.difference, BitLevel.differenceFrom_map_range',
    testBit_difference_zero, above]

/-- The running bits of a byte are its bits joined one by one. -/
theorem bits_accumulate (b : UInt8) :
    bits (op.accumulate b) = BitLevel.accumulate (op = .xnor) (bits b) := by
  rw [← BitLevel.accumulate_difference (op = .xnor) (bits (op.accumulate b)), ← bits_difference,
    difference_accumulate]

end Operator

/-- The operator of a byte is the one that its bits call for. -/
theorem Minimized.operatorOf_eq_xnor_iff (b : UInt8) :
    operatorOf b = .xnor ↔ BitLevel.UsesXnor (LineCode.bits b) := by
  rw [BitLevel.UsesXnor, head?_bits, ← ones_eq_count, operatorOf]
  split <;> simp_all

/-! ## Symbols -/

/-- The data bits of a symbol are its lowest eight, bit 8 tells the operator and bit 9 the
inversion. -/
theorem Symbol.bits_eq_symbol (s : Symbol) :
    s.bits = BitLevel.symbol s.inverted (s.operator = .xor) (LineCode.bits s.data) :=
  s.bits_eq

/-- **A symbol decodes to the byte that its bits spell.** -/
theorem Symbol.bits_decode (s : Symbol) : LineCode.bits s.decode = BitLevel.decode s.bits := by
  have data : s.bits.take 8 = LineCode.bits s.data := by
    rw [bits_eq, List.take_left' (by simp)]
  have bit8 : s.bits[8]? = some (decide (s.operator = .xor)) := by
    rw [bits_eq, List.getElem?_append_right (by simp)]
    simp
  have bit9 : s.bits[9]? = some s.inverted := by
    rw [bits_eq, List.getElem?_append_right (by simp)]
    simp
  rw [decode, Operator.bits_difference, BitLevel.decode, data, bit8, bit9]
  rcases s with ⟨_ | _, _ | _, w⟩ <;> simp [bits_complement]

theorem Selector.bits_symbol (c : Selector) : c.symbol.bits = BitLevel.control c.index := by
  cases c <;> decide

theorem eq_of_bits {b c : UInt8} (h : bits b = bits c) : b = c := by
  have same : ∀ n < 8, b.toNat.testBit n = c.toNat.testBit n := by
    intro n hn
    exact List.map_inj_left.mp h n (List.mem_range.mpr hn)
  have clear : ∀ (d : UInt8) (n : Nat), 8 ≤ n → d.toNat.testBit n = false := fun d n hn =>
    Nat.testBit_lt_two_pow (Nat.lt_of_lt_of_le d.toNat_lt (Nat.pow_le_pow_right (by decide) hn))
  apply UInt8.toNat_inj.mp
  refine Nat.eq_of_testBit_eq fun n => ?_
  by_cases hn : n < 8
  · exact same n hn
  · rw [clear b n (by omega), clear c n (by omega)]

/-- A symbol is told by its ten bits. -/
theorem Symbol.bits_inj {s t : Symbol} : s.bits = t.bits ↔ s = t := by
  refine ⟨fun h => ?_, fun h => h ▸ rfl⟩
  rw [bits_eq_symbol, bits_eq_symbol] at h
  obtain ⟨data, flags⟩ := List.append_inj' h rfl
  have same := eq_of_bits data
  rcases s with ⟨_, _ | _, _⟩ <;> rcases t with ⟨_, _ | _, _⟩ <;> simp_all

/-! ## Sending -/

theorem Operator.toNat_flags (op : Operator) :
    (decide (op = .xor)).toNat = op.flag ∧ (!decide (op = .xor)).toNat + op.flag = 1 := by
  cases op <;> decide

/-- The three ways of sending are the three cases of the algorithm. -/
theorem Balance.send_eq (counter : Int) (m : Minimized) :
    BitLevel.send counter (m.operator = .xor) (bits m.bits)
      = (((choose counter m.excess).symbol m).bits,
          counter + (choose counter m.excess).change m) := by
  have surplus : m.excess = (bits m.bits).count true - (bits m.bits).count false :=
    excess_eq_surplus m.bits
  obtain ⟨set, clear⟩ := m.operator.toNat_flags
  rw [BitLevel.send, Symbol.bits_eq_symbol]
  unfold choose
  by_cases level : counter = 0 ∨ m.excess = 0
  · rw [if_pos level, if_pos (by omega)]
    rcases m with ⟨_ | _, w⟩ <;> simp [symbol, change, surplus, bits_complement]
  rw [if_neg level, if_neg (by omega)]
  by_cases same : 0 < counter ↔ 0 < m.excess
  · rw [if_pos same, if_pos (by omega), symbol, change, surplus, bits_complement, set]
    exact Prod.ext rfl (by simp only; omega)
  · rw [if_neg same, if_neg (by omega), symbol, change, surplus]
    exact Prod.ext rfl (by simp only; omega)

namespace Encoder

/-- The encoder sends a byte as the algorithm does. -/
theorem encode_bitLevel (e : Encoder) (b : UInt8) :
    BitLevel.encode e.disparity (bits b)
      = ((e.encodeData b).1.bits, (e.encodeData b).2.disparity) := by
  have xnor : decide (BitLevel.UsesXnor (bits b)) = decide (Minimized.operatorOf b = .xnor) := by
    simp only [Minimized.operatorOf_eq_xnor_iff]
  have xor : (!decide (Minimized.operatorOf b = .xnor))
      = decide (Minimized.operatorOf b = .xor) := by
    cases Minimized.operatorOf b <;> rfl
  rw [BitLevel.encode, xnor, ← Operator.bits_accumulate, xor]
  exact Balance.send_eq e.disparity (.ofByte b)

theorem step_bitLevel (e : Encoder) (p : Payload) :
    BitLevel.step e.disparity p = ((e.encode p).1.bits, (e.encode p).2.disparity) := by
  cases p with
  | data b => exact encode_bitLevel e b
  | control c => rw [BitLevel.step, ← Selector.bits_symbol, encode_control]

/-- A run is the run of the algorithm, symbol by symbol and counter by counter. -/
theorem run_bitLevel (e : Encoder) (ps : List Payload) :
    BitLevel.run e.disparity ps = (e.run ps).map fun x => (x.1.bits, x.2.disparity) := by
  induction ps generalizing e with
  | nil => rfl
  | cons p ps ih => rw [BitLevel.run, step_bitLevel, ih, run, List.map_cons]

/-- **The encoder and the decoding of symbols are the published algorithm.**  Bit by bit each byte
gives the symbol and the counter that the algorithm gives, in a counter of 32 bits without overflow;
each symbol decodes as the algorithm decodes it; and so whole runs agree from any start. -/
theorem refines_bitLevel :
    (∀ s t : Symbol, s.bits = t.bits ↔ s = t) ∧
    (∀ (e : Encoder) (b : UInt8),
      ((e.encodeData b).1.bits, (e.encodeData b).2.disparity)
        = BitLevel.encode e.disparity (bits b)) ∧
    (∀ (e : Encoder) (b : UInt8), FitsCounter e.disparity →
      FitsCounter (BitLevel.encode e.disparity (bits b)).2 ∧
      (Int32.ofInt e.disparity + Int32.ofInt (e.delta b)).toInt
        = (BitLevel.encode e.disparity (bits b)).2) ∧
    (∀ s : Symbol, bits s.decode = BitLevel.decode s.bits) ∧
    ∀ (e : Encoder) (ps : List Payload),
      ((e.run ps).map fun x => (x.1.bits, x.2.disparity)) = BitLevel.run e.disparity ps := by
  refine ⟨fun s t => Symbol.bits_inj, fun e b => (encode_bitLevel e b).symm, ?_,
    Symbol.bits_decode, fun e ps => (run_bitLevel e ps).symm⟩
  intro e b fits
  rw [encode_bitLevel]
  exact toInt_add_delta fits b

/-- The byte that lowers the counter most, at the greatest one. -/
theorem refines_bitLevel_at_limit :
    FitsCounter 2147483647 ∧
    FitsCounter (BitLevel.encode 2147483647 (bits 0xFE)).2 ∧
    (Int32.ofInt 2147483647 + Int32.ofInt (delta ⟨2147483647⟩ 0xFE)).toInt
      = (BitLevel.encode 2147483647 (bits 0xFE)).2 ∧
    (BitLevel.encode 2147483647 (bits 0xFE)).2 = 2147483637 :=
  ⟨by decide, (refines_bitLevel.2.2.1 ⟨2147483647⟩ 0xFE (by decide)).1,
    (refines_bitLevel.2.2.1 ⟨2147483647⟩ 0xFE (by decide)).2, by decide⟩

end Encoder

end LineCode
