import LineCode.Proofs.Runs

/-!
# Bounded disparity

A data symbol moves the disparity by an even number of at most 10, never further from zero than it
was, unless it was at most 10 from zero.  Along data the disparity so keeps its parity and never
leaves the band between its start and 8, or 9 where it is odd; and a counter of 32 bits holds it
from any start.
-/

namespace LineCode

/-- The numbers that a signed counter of 32 bits holds. -/
def FitsCounter (n : Int) : Prop :=
  Int32.minValue.toInt ≤ n ∧ n ≤ Int32.maxValue.toInt

instance (n : Int) : Decidable (FitsCounter n) :=
  inferInstanceAs (Decidable (_ ∧ _))

theorem fitsCounter_iff (n : Int) : FitsCounter n ↔ -2147483648 ≤ n ∧ n ≤ 2147483647 :=
  Iff.rfl

/-- A sum that fits is what the counter holds after adding. -/
theorem toInt_add_of_fitsCounter {a k : Int} (ha : FitsCounter a) (hk : FitsCounter k)
    (h : FitsCounter (a + k)) : (Int32.ofInt a + Int32.ofInt k).toInt = a + k := by
  have self : ∀ n, FitsCounter n → n.bmod 4294967296 = n := fun n hn => by
    rw [fitsCounter_iff] at hn
    exact Int.bmod_eq_of_le (by omega) (by omega)
  calc (Int32.ofInt a + Int32.ofInt k).toInt
      = (a.bmod 4294967296 + k.bmod 4294967296).bmod 4294967296 := by
        rw [Int32.toInt_add, Int32.toInt_ofInt, Int32.toInt_ofInt]
    _ = a + k := by rw [self a ha, self k hk, self _ h]

/-! ## One step -/

/-- How a data symbol that is sent at disparity `c` may change it. -/
structure Steers (c change : Int) : Prop where
  even : 2 ∣ change
  small : change.natAbs ≤ 10
  down : 0 < c → change ≤ 0
  up : c < 0 → 0 ≤ change
  level : c = 0 → change.natAbs ≤ 8

/-- A change across zero ends within 8, or within 9 where it began at an odd number: then the
number next to zero is 1 and not 2. -/
theorem Steers.natAbs_add_le {c k : Int} (h : Steers c k) :
    (c + k).natAbs ≤ max c.natAbs (8 + c.natAbs % 2) := by
  have hsmall := h.small
  rcases Int.lt_trichotomy c 0 with hneg | hzero | hpos
  · have := h.up hneg
    omega
  · have := h.level hzero
    omega
  · have := h.down hpos
    omega

theorem Minimized.excess_bounds (m : Minimized) : 2 ∣ m.excess ∧ m.excess.natAbs ≤ 8 := by
  have h := ones_le m.bits
  rw [excess, LineCode.excess]; omega

theorem Balance.steers_choose (c : Int) (m : Minimized) :
    Steers c ((choose c m.excess).change m) := by
  obtain ⟨heven, hsmall⟩ := m.excess_bounds
  have hflag := m.operator.flag_le_one
  unfold choose
  by_cases h : c = 0 ∨ m.excess = 0
  · rw [if_pos h]
    have hchange : change m neutral = m.excess ∨ change m neutral = - m.excess := by
      rcases m with ⟨_ | _, w⟩ <;> simp [change]
    constructor <;> omega
  · rw [if_neg h]
    by_cases hsame : 0 < c ↔ 0 < m.excess
    · rw [if_pos hsame, change]
      constructor <;> omega
    · rw [if_neg hsame, change]
      constructor <;> omega

namespace Encoder

/-- What is added to the counter for a byte. -/
def delta (e : Encoder) (b : UInt8) : Int :=
  (e.choice (.ofByte b)).change (.ofByte b)

theorem disparity_encodeData (e : Encoder) (b : UInt8) :
    (e.encodeData b).2.disparity = e.disparity + e.delta b := rfl

theorem steers_delta (e : Encoder) (b : UInt8) : Steers e.disparity (e.delta b) :=
  Balance.steers_choose ..

/-! ## The counter -/

/-- Data is added to a counter only towards zero, or in a narrow band around it. -/
theorem fitsCounter_add {c k : Int} (hc : FitsCounter c) (h : Steers c k) : FitsCounter (c + k) := by
  rw [fitsCounter_iff] at hc ⊢
  have := h.small
  rcases Int.lt_trichotomy c 0 with hneg | rfl | hpos
  · have := h.up hneg; omega
  · omega
  · have := h.down hpos; omega

theorem fitsCounter_encode (e : Encoder) (p : Payload) (h : FitsCounter e.disparity) :
    FitsCounter (e.encode p).2.disparity := by
  cases p with
  | data b => exact fitsCounter_add h (e.steers_delta b)
  | control c => exact (fitsCounter_iff 0).mpr (by omega)

theorem fitsCounter_of_mem_answers {e : Encoder} {rs : List Request} (h : FitsCounter e.disparity) :
    ∀ e' ∈ e :: (e.answers rs).map (·.2), FitsCounter e'.disparity := by
  intro e' h'
  rcases List.mem_cons.mp h' with rfl | h'
  · exact h
  · obtain ⟨x, hx, rfl⟩ := List.mem_map.mp h'
    exact answers_induction (P := fun e => FitsCounter e.disparity) fitsCounter_encode h x hx

/-- In a counter that fits, the addition for a byte is the one of the integers. -/
theorem toInt_add_delta {e : Encoder} (h : FitsCounter e.disparity) (b : UInt8) :
    FitsCounter (e.disparity + e.delta b) ∧
      (Int32.ofInt e.disparity + Int32.ofInt (e.delta b)).toInt = e.disparity + e.delta b := by
  have sum : FitsCounter (e.disparity + e.delta b) := fitsCounter_add h (e.steers_delta b)
  have small : FitsCounter (e.delta b) := by
    have := (e.steers_delta b).small
    rw [fitsCounter_iff]
    omega
  exact ⟨sum, toInt_add_of_fitsCounter h small sum⟩

/-! ## Data runs -/

/-- Where data may lead the disparity from `c`: the parity stays, and the distance from zero does
not grow beyond 8, or beyond 9 if it is odd. -/
structure Attains (c d : Int) : Prop where
  parity : d % 2 = c % 2
  bound : d.natAbs ≤ max c.natAbs (if 2 ∣ c then 8 else 9)

theorem attains_self (c : Int) : Attains c c :=
  ⟨rfl, Nat.le_max_left ..⟩

theorem Attains.add {c d k : Int} (hd : Attains c d) (hk : Steers d k) : Attains c (d + k) := by
  obtain ⟨hparity, hbound⟩ := hd
  -- `d` has the parity of `c`, so one step from `d` has the limit of the whole run
  have hlimit : (if 2 ∣ c then 8 else 9) = 8 + d.natAbs % 2 := by split <;> omega
  rw [hlimit] at hbound
  refine ⟨?_, ?_⟩
  · have := hk.even
    omega
  · rw [hlimit]
    exact Nat.le_trans hk.natAbs_add_le (Nat.max_le.mpr ⟨hbound, Nat.le_max_right ..⟩)

theorem attains_of_mem_run (e : Encoder) (bs : List UInt8) :
    ∀ x ∈ e.run (bs.map .data), Attains e.disparity x.2.disparity := by
  refine run_induction (P := fun e' => Attains e.disparity e'.disparity) ?_ (attains_self _)
  intro e' p hp h
  obtain ⟨b, -, rfl⟩ := List.mem_map.mp hp
  exact h.add (e'.steers_delta b)

/-! ## From zero -/

/-- The disparities of a line that began at zero. -/
def Settled (d : Int) : Prop :=
  2 ∣ d ∧ d.natAbs ≤ 8

theorem settled_encode (e : Encoder) (p : Payload) (h : Settled e.disparity) :
    Settled (e.encode p).2.disparity := by
  cases p with
  | data b =>
    obtain ⟨heven, hsmall⟩ := h
    have hk := e.steers_delta b
    have hstep := hk.even
    have hbound := hk.natAbs_add_le
    rw [encode_data, disparity_encodeData]
    exact ⟨Int.dvd_add heven hstep, by omega⟩
  | control c => exact ⟨by simp, by simp⟩

theorem settled_after (ps : List Payload) : Settled (after {} ps).disparity :=
  after_induction (P := fun e => Settled e.disparity) (fun e p _ => settled_encode e p)
    ⟨by simp, by simp⟩

/-- Each settled disparity is one byte away from zero. -/
theorem exists_byte_of_settled {d : Int} (h : Settled d) :
    ∃ b, (encodeData {} b).2.disparity = d := by
  have table : ∀ k : Fin 9, (encodeData {} (#v[0, 3, 5, 9, 16, 8, 4, 2, 1].get k)).2.disparity
      = 2 * (k : Int) - 8 := by decide
  obtain ⟨⟨k, rfl⟩, hsmall⟩ := h
  have hk : (k + 4).toNat < 9 := by omega
  refine ⟨_, (table ⟨(k + 4).toNat, hk⟩).trans ?_⟩
  simp only [Int.toNat_of_nonneg (show 0 ≤ k + 4 by omega)]
  omega

/-- **The disparity is bounded and its counter never overflows.**  Whatever was asked of an encoder
whose counter fits 32 bits, what is added next is added exactly.  Along data the disparity stays in
its band, each step leads no further from zero on the side it is on, and from zero data reaches the
even numbers from -8 to 8, which control periods do not leave. -/
theorem disparity_bounds :
    (∀ (e : Encoder) (rs : List Request), FitsCounter e.disparity →
      ∀ e' ∈ e :: (e.answers rs).map (·.2), FitsCounter e'.disparity ∧
        ∀ b, FitsCounter (e'.disparity + e'.delta b) ∧
          (Int32.ofInt e'.disparity + Int32.ofInt (e'.delta b)).toInt
            = (e'.encodeData b).2.disparity) ∧
    (∀ (e : Encoder) (bs : List UInt8), ∀ x ∈ e.run (bs.map .data),
      x.2.disparity % 2 = e.disparity % 2 ∧
      x.2.disparity.natAbs ≤ max e.disparity.natAbs (if 2 ∣ e.disparity then 8 else 9)) ∧
    (∀ (e : Encoder) (b : UInt8),
      (0 < e.disparity → (e.encodeData b).2.disparity ≤ e.disparity) ∧
      (e.disparity < 0 → e.disparity ≤ (e.encodeData b).2.disparity) ∧
      ((e.encodeData b).2.disparity - e.disparity).natAbs ≤ 10) ∧
    (∀ d : Int, (∃ bs : List UInt8, (after {} (bs.map .data)).disparity = d) ↔
      2 ∣ d ∧ d.natAbs ≤ 8) ∧
    ∀ d : Int, (∃ ps, (after {} ps).disparity = d) ↔ 2 ∣ d ∧ d.natAbs ≤ 8 := by
  refine ⟨?_, ?_, ?_, ?_, ?_⟩
  · intro e rs he e' h'
    have fits := fitsCounter_of_mem_answers he e' h'
    exact ⟨fits, toInt_add_delta fits⟩
  · intro e bs x hx
    have h := attains_of_mem_run e bs x hx
    exact ⟨h.parity, h.bound⟩
  · intro e b
    have h := e.steers_delta b
    have hsmall := h.small
    rw [disparity_encodeData]
    refine ⟨?_, ?_, by omega⟩
    · intro hpos
      have := h.down hpos
      omega
    · intro hneg
      have := h.up hneg
      omega
  -- one byte is enough to reach a number of the band, and neither period leads out of it
  · intro d
    constructor
    · rintro ⟨bs, rfl⟩
      exact settled_after _
    · intro h
      obtain ⟨b, hb⟩ := exists_byte_of_settled h
      exact ⟨[b], hb⟩
  · intro d
    constructor
    · rintro ⟨ps, rfl⟩
      exact settled_after ps
    · intro h
      obtain ⟨b, hb⟩ := exists_byte_of_settled h
      exact ⟨[.data b], hb⟩

/-- The counter is led down from its greatest value and up from its least one. -/
theorem disparity_bounds_at_limits :
    FitsCounter 2147483647 ∧ FitsCounter (2147483647 + delta ⟨2147483647⟩ 0x01) ∧
    FitsCounter (-2147483648) ∧ FitsCounter (-2147483648 + delta ⟨-2147483648⟩ 0x00) :=
  ⟨by decide, ((disparity_bounds.1 ⟨2147483647⟩ [] (by decide) _ List.mem_cons_self).2 0x01).1,
    by decide, ((disparity_bounds.1 ⟨-2147483648⟩ [] (by decide) _ List.mem_cons_self).2 0x00).1⟩

end Encoder

end LineCode
