import LineCode.Proofs.Disparity
import LineCode.Proofs.Recovery

/-!
# The symbols of data

Which of the 1024 symbols a line can carry for a byte, whatever was sent before.  At most three of
the seven places may change: of the two running combinations of a byte exactly one is that calm, and
it is the one that is sent.  Unbalanced running bits go out both ways, since a line from zero comes
to either side of it; balanced ones go out only the way that the operator calls for.
-/

namespace LineCode

/-! ## Running bits -/

/-- Where one operator makes a change the other does not. -/
theorem changes_accumulate_add (b : UInt8) :
    changes (Operator.xor.accumulate b) + changes (Operator.xnor.accumulate b) = 7 := by
  rw [changes_accumulate_xor, changes_accumulate_xnor]
  exact ones_and_add_ones_complement_and b 0xFE

namespace Minimized

/-- **The operator of a byte is the one under which at most three places change.** -/
theorem operatorOf_eq_iff (op : Operator) (b : UInt8) :
    operatorOf b = op ↔ changes (op.accumulate b) ≤ 3 := by
  have total := changes_accumulate_add b
  have few : changes ((operatorOf b).accumulate b) ≤ 3 := changes_ofByte_le b
  constructor
  · rintro rfl
    exact few
  · intro h
    -- were it the other operator, both would make at most three of the seven changes
    cases op <;> cases hop : operatorOf b <;> rw [hop] at few <;> first | rfl | omega

/-- Running bits with at most three changes are those of the byte that they stand for. -/
theorem ofByte_byte {m : Minimized} (h : changes m.bits ≤ 3) : ofByte m.byte = m := by
  obtain ⟨op, w⟩ := m
  have running : op.accumulate (op.difference w) = w := Operator.accumulate_difference op w
  have operator : operatorOf (op.difference w) = op := by
    rw [operatorOf_eq_iff, running]
    exact h
  rw [byte, ofByte, operator, running]

end Minimized

/-! ## Symbols and the ways they were sent -/

namespace Symbol

/-- The running bits that a symbol carries, its inversion undone. -/
def minimized (s : Symbol) : Minimized :=
  ⟨s.operator, if s.inverted then ~~~ s.data else s.data⟩

theorem byte_minimized (s : Symbol) : s.minimized.byte = s.decode := rfl

theorem changes_minimized (s : Symbol) : changes s.minimized.bits = changes s.data := by
  rcases s with ⟨_ | _, op, w⟩
  · rfl
  · exact changes_complement w

theorem excess_minimized_eq_zero_iff (s : Symbol) : s.minimized.excess = 0 ↔ ones s.data = 4 := by
  have balanced : excess s.data = 0 ↔ ones s.data = 4 := by rw [excess]; omega
  rcases s with ⟨_ | _, op, w⟩
  · exact balanced
  · rw [← balanced, Minimized.excess, minimized, if_pos rfl, excess_complement]
    exact Int.neg_eq_zero

theorem symbol_minimized_of_inverted {s : Symbol} (h : s.inverted = true) :
    Balance.invert.symbol s.minimized = s := by
  rcases s with ⟨_ | _, op, w⟩
  · contradiction
  · simp [Balance.symbol, minimized]

theorem symbol_minimized_of_not_inverted {s : Symbol} (h : s.inverted = false) :
    Balance.keep.symbol s.minimized = s := by
  rcases s with ⟨_ | _, op, w⟩
  · rfl
  · contradiction

/-- Without need for balance a symbol is sent as its operator calls for. -/
theorem symbol_minimized_of_inverted_ne {s : Symbol} (h : s.inverted ≠ decide (s.operator = .xor)) :
    Balance.neutral.symbol s.minimized = s := by
  rcases s with ⟨_ | _, _ | _, w⟩
  · rfl
  · simp at h
  · simp at h
  · simp [Balance.symbol, minimized]

end Symbol

namespace Balance

@[simp] theorem minimized_symbol (m : Minimized) (k : Balance) : (k.symbol m).minimized = m := by
  rcases m with ⟨_ | _, w⟩ <;> cases k <;> simp [symbol, Symbol.minimized]

theorem inverted_neutral_ne (m : Minimized) :
    (neutral.symbol m).inverted ≠ decide ((neutral.symbol m).operator = .xor) := by
  rcases m with ⟨_ | _, w⟩ <;> simp [symbol]

/-- Off zero, unbalanced running bits go out inverted or not as the side of the disparity says. -/
theorem exists_settled_choose (inverted : Bool) {x : Int} (hx : x ≠ 0) :
    ∃ d, Encoder.Settled d ∧ choose d x = if inverted then invert else keep := by
  have settled : Encoder.Settled 2 ∧ Encoder.Settled (-2) := by simp [Encoder.Settled]
  -- inverted on the side of the running bits, as they are on the other
  by_cases hside : inverted = true ↔ 0 < x
  · refine ⟨2, settled.1, ?_⟩
    cases inverted <;> simp_all [choose]
  · refine ⟨-2, settled.2, ?_⟩
    cases inverted <;> simp_all [choose]

end Balance

/-! ## What is sent -/

/-- What marks the symbols of data: few changes and, where half of the data bits are set, an
inversion just if the operator is `xnor`. -/
structure Symbol.IsSendable (s : Symbol) : Prop where
  calm : changes s.data ≤ 3
  forced : ones s.data ≠ 4 ∨ s.inverted ≠ decide (s.operator = .xor)

theorem Selector.not_isSendable_symbol (c : Selector) : ¬ c.symbol.IsSendable := by
  intro h
  have few := h.calm
  rw [c.changes_symbol] at few
  omega

namespace Encoder

theorem isSendable_encodeData (e : Encoder) (b : UInt8) : (e.encodeData b).1.IsSendable := by
  refine ⟨changes_encodeData_le e b, ?_⟩
  by_cases h : ones (e.encodeData b).1.data = 4
  · -- balanced running bits leave no choice
    right
    rw [← Symbol.excess_minimized_eq_zero_iff, encodeData, Balance.minimized_symbol] at h
    rw [encodeData, choice, Balance.choose, if_pos (Or.inr h)]
    exact Balance.inverted_neutral_ne _
  · exact Or.inl h

/-- A symbol of few changes is sent for the byte that it decodes to, if it is balanced this way. -/
theorem encodeData_decode {e : Encoder} {s : Symbol} (few : changes s.data ≤ 3)
    (chosen : (e.choice s.minimized).symbol s.minimized = s) : (e.encodeData s.decode).1 = s := by
  have running : Minimized.ofByte s.decode = s.minimized := by
    rw [← s.byte_minimized]
    exact Minimized.ofByte_byte (by rw [s.changes_minimized]; exact few)
  rw [encodeData, running]
  exact chosen

/-- A line from zero comes to where such a symbol is sent. -/
theorem exists_settled_encodeData {s : Symbol} (h : s.IsSendable) :
    ∃ d, Settled d ∧ (encodeData ⟨d⟩ s.decode).1 = s := by
  by_cases called : s.inverted ≠ decide (s.operator = .xor)
  · refine ⟨0, by simp [Settled], encodeData_decode h.calm ?_⟩
    rw [choice, Balance.choose, if_pos (Or.inl rfl)]
    exact Symbol.symbol_minimized_of_inverted_ne called
  · have unbalanced : s.minimized.excess ≠ 0 := by
      rw [ne_eq, s.excess_minimized_eq_zero_iff]
      exact h.forced.resolve_right called
    obtain ⟨d, settled, hd⟩ := Balance.exists_settled_choose s.inverted unbalanced
    refine ⟨d, settled, encodeData_decode h.calm ?_⟩
    rw [choice, hd]
    cases hi : s.inverted with
    | true => exact Symbol.symbol_minimized_of_inverted hi
    | false => exact Symbol.symbol_minimized_of_not_inverted hi

/-- **The symbols of data.**  A line from zero can carry a symbol for a byte exactly if at most
three of the seven places between its data bits change and, where half of the data bits are set, it
is inverted just if its operator is `xnor`.  A line at another disparity carries no further ones,
and each of them for the byte that it decodes to.  Control periods have none of these symbols. -/
theorem isSendable_iff_sent :
    (∀ s : Symbol,
      ((∃ (ps : List Payload) (i : Nat) (b : UInt8),
        ps[i]? = some (.data b) ∧ (symbols {} ps)[i]? = some s) ↔ s.IsSendable) ∧
      ((∃ d, FitsCounter d ∧ (encodeData ⟨d⟩ s.decode).1 = s) ↔ s.IsSendable)) ∧
    ∀ c : Selector, ¬ c.symbol.IsSendable := by
  refine ⟨fun s => ⟨⟨?_, ?_⟩, ⟨?_, ?_⟩⟩, Selector.not_isSendable_symbol⟩
  · rintro ⟨ps, i, b, hp, hs⟩
    rw [symbols, List.getElem?_map, getElem?_run, hp] at hs
    obtain rfl : (encodeData (after {} (ps.take i)) b).1 = s := Option.some_inj.mp hs
    exact isSendable_encodeData _ b
  · intro h
    -- one byte leads to the disparity, and the next is sent there
    obtain ⟨d, settled, hd⟩ := exists_settled_encodeData h
    obtain ⟨b, hb⟩ := exists_byte_of_settled settled
    have there : (encodeData {} b).2 = ⟨d⟩ := by rw [← hb]
    refine ⟨[.data b, .data s.decode], 1, s.decode, rfl, ?_⟩
    simp [there, hd]
  · rintro ⟨d, -, hd⟩
    rw [← hd]
    exact isSendable_encodeData _ _
  · intro h
    obtain ⟨d, ⟨-, small⟩, hd⟩ := exists_settled_encodeData h
    refine ⟨d, ?_, hd⟩
    rw [fitsCounter_iff]
    omega

end Encoder

end LineCode
