import LineCode.Proofs.Runs
import LineCode.Proofs.Transitions

/-!
# Recovering payloads

A data symbol decodes to its byte however it was balanced, and a symbol is read as a selector only
if it was sent for one.  So the list of symbols of an encoder determines the list of payloads:
neither the disparity at the start nor the periods have to be known.
-/

namespace LineCode

/-! ## One symbol -/

theorem Minimized.byte_ofByte (b : UInt8) : (ofByte b).byte = b :=
  Operator.difference_accumulate _ b

/-- Every way of sending running bits stands for the same byte. -/
theorem Balance.decode_symbol (m : Minimized) (k : Balance) : (k.symbol m).decode = m.byte := by
  rcases m with ⟨_ | _, w⟩ <;> cases k <;>
    simp [symbol, Symbol.decode, Minimized.byte]

namespace Encoder

theorem decode_encodeData (e : Encoder) (b : UInt8) : (e.encodeData b).1.decode = b := by
  rw [encodeData, Balance.decode_symbol, Minimized.byte_ofByte]

theorem ofSymbol?_encode_eq_some_iff (e : Encoder) (p : Payload) (c : Selector) :
    Selector.ofSymbol? (e.encode p).1 = some c ↔ p = .control c := by
  rw [Selector.ofSymbol?_eq_some_iff]
  cases p with
  | data b => exact iff_of_false (Selector.symbol_ne_encodeData e b c) (by simp)
  | control d =>
    rw [encode_control, Payload.control.injEq]
    exact ⟨fun h => (Selector.symbol_injective h).symm, fun h => by rw [h]⟩

/-- With its period a symbol gives back what it was sent for. -/
theorem ofSymbol?_encode_isData (e : Encoder) (p : Payload) :
    Payload.ofSymbol? (e.encode p).1 p.isData = some p := by
  cases p with
  | data b => simp [Payload.ofSymbol?, decode_encodeData]
  | control c => simp [Payload.ofSymbol?]

end Encoder

/-! ## Lists of symbols -/

/-- The byte that a symbol sent for a payload decodes to, also in a control period. -/
def Payload.received : Payload → UInt8
  | .data b => b
  | .control c => c.symbol.decode

/-- The payload of a symbol whose period is not known: one of the four selectors, or else a byte. -/
def Payload.recover (s : Symbol) : Payload :=
  match Selector.ofSymbol? s with
  | some c => .control c
  | none => .data s.decode

namespace Encoder

theorem recover_encode (e : Encoder) (p : Payload) : Payload.recover (e.encode p).1 = p := by
  cases p with
  | data b =>
    have none : Selector.ofSymbol? (e.encodeData b).1 = none := by
      rw [Option.eq_none_iff_forall_ne_some]
      exact fun c h => nomatch (ofSymbol?_encode_eq_some_iff e (.data b) c).mp h
    rw [encode_data, Payload.recover, none, decode_encodeData]
  | control c => simp [Payload.recover]

theorem map_recover_symbols (e : Encoder) (ps : List Payload) :
    (e.symbols ps).map Payload.recover = ps := by
  rw [map_symbols (g := id) recover_encode, List.map_id]

theorem decode_encode (e : Encoder) (p : Payload) : (e.encode p).1.decode = p.received := by
  cases p with
  | data b => exact decode_encodeData e b
  | control c => rfl

theorem map_decode_symbols (e : Encoder) (ps : List Payload) :
    (e.symbols ps).map Symbol.decode = ps.map Payload.received :=
  map_symbols decode_encode e ps

theorem forall₂_symbols {R : Payload → Symbol → Prop} (h : ∀ e p, R p (encode e p).1)
    (e : Encoder) (ps : List Payload) : List.Forall₂ R ps (e.symbols ps) := by
  induction ps generalizing e with
  | nil => exact .nil
  | cons p ps ih => exact .cons (h e p) (ih _)

/-- **Streams that mix data and control periods are recoverable.**  With its period each symbol
gives back its payload; without it the selectors are still told from the bytes; and equal symbols
come from equal payloads, whatever the disparities were. -/
theorem payloads_of_symbols :
    (∀ (e : Encoder) (ps : List Payload), List.Forall₂
      (fun p s => Payload.ofSymbol? s p.isData = some p ∧
        ∀ c, Selector.ofSymbol? s = some c ↔ p = .control c) ps (e.symbols ps)) ∧
    ∀ (e e' : Encoder) (ps qs : List Payload), e.symbols ps = e'.symbols qs → ps = qs := by
  constructor
  · intro e ps
    refine forall₂_symbols ?_ e ps
    intro e p
    exact ⟨ofSymbol?_encode_isData e p, ofSymbol?_encode_eq_some_iff e p⟩
  · intro e e' ps qs h
    -- `recover` needs neither the disparity nor the period
    rw [← map_recover_symbols e ps, h, map_recover_symbols]

/-- After a control period the disparity before it is forgotten. -/
theorem payloads_of_symbols_after_control :
    symbols ⟨5⟩ [.control .c1, .data 0x3C] = symbols ⟨-8⟩ [.control .c1, .data 0x3C] ∧
    [Payload.control .c1, .data 0x3C] = [.control .c1, .data 0x3C] :=
  ⟨by decide, payloads_of_symbols.2 ⟨5⟩ ⟨-8⟩ _ _ (by decide)⟩

end Encoder

end LineCode
