import Mathlib.Algebra.Ring.Int.Defs
import Mathlib.Data.List.DropRight
import LineCode.Proofs.Bits
import LineCode.Proofs.Disparity

/-!
# The disparity of the line

The counter of an encoder is what was really sent: the bits that were set less the bits that were
clear, over all ten bits of every data symbol since the last control period, on top of the
disparity it began with.
-/

namespace LineCode

namespace Encoder

/-- Each payload with the symbol that was sent for it. -/
def sent (e : Encoder) (ps : List Payload) : List (Payload × Symbol) :=
  ps.zip (e.symbols ps)

/-- The data symbols sent since the last control period. -/
def sinceControl (sent : List (Payload × Symbol)) : List Symbol :=
  (sent.rtakeWhile (·.1.isData)).map (·.2)

theorem symbols_take (e : Encoder) (ps : List Payload) (k : Nat) :
    e.symbols (ps.take k) = (e.symbols ps).take k := by
  induction ps generalizing e k with
  | nil => simp
  | cons p ps ih =>
    cases k with
    | zero => simp
    | succ k => simp [ih]

theorem symbols_drop (e : Encoder) (ps : List Payload) (k : Nat) :
    (e.after (ps.take k)).symbols (ps.drop k) = (e.symbols ps).drop k := by
  induction ps generalizing e k with
  | nil => simp
  | cons p ps ih =>
    cases k with
    | zero => simp
    | succ k => simp [ih]

theorem sent_take (e : Encoder) (ps : List Payload) (k : Nat) :
    e.sent (ps.take k) = (e.sent ps).take k := by
  rw [sent, sent, symbols_take, List.zip_eq_zipWith, List.zip_eq_zipWith, List.take_zipWith]

theorem sent_concat (e : Encoder) (ps : List Payload) (p : Payload) :
    e.sent (ps ++ [p]) = e.sent ps ++ [(p, ((e.after ps).encode p).1)] := by
  rw [sent, symbols_concat, List.zip_append (by simp)]
  rfl

theorem disparity_encode_data (e : Encoder) (b : UInt8) :
    (e.encodeData b).2.disparity = e.disparity + (e.encodeData b).1.disparity := by
  rw [disparity_encodeData, delta, Balance.change_eq_disparity, encodeData]

theorem disparity_after (e : Encoder) (ps : List Payload) :
    (e.after ps).disparity = (if (e.sent ps).all (·.1.isData) then e.disparity else 0)
      + ((sinceControl (e.sent ps)).map Symbol.disparity).sum := by
  -- from the end: a data symbol adds its own disparity, a control symbol begins again from zero
  induction ps using List.reverseRecOn with
  | nil => simp [sent, sinceControl]
  | append_singleton ps p ih =>
    rw [after_concat, sent_concat, sinceControl, List.all_append]
    cases p with
    | data b =>
      rw [encode_data, disparity_encode_data, ih,
        List.rtakeWhile_concat_pos _ _ _ (by simp)]
      simp only [List.all_cons, List.all_nil, Payload.isData_data, Bool.and_true, sinceControl,
        List.map_append, List.sum_append, List.map_cons, List.map_nil, List.sum_singleton]
      omega
    | control c =>
      rw [encode_control, List.rtakeWhile_concat_neg _ _ _ (by simp)]
      simp

/-- Over data alone the disparity changes by all that was sent. -/
theorem sum_symbols_of_isData (e : Encoder) {ps : List Payload} (h : ∀ p ∈ ps, p.isData) :
    ((e.symbols ps).map Symbol.disparity).sum = (e.after ps).disparity - e.disparity := by
  have data : ∀ x ∈ e.sent ps, x.1.isData = true := fun x hx => h x.1 (List.of_mem_zip hx).1
  have all : sinceControl (e.sent ps) = e.symbols ps := by
    rw [sinceControl, List.rtakeWhile_eq_self_iff.mpr data, sent]
    exact List.map_snd_zip (by simp)
  rw [disparity_after, if_pos (List.all_eq_true.mpr data), all]
  omega

/-- **The counter is the disparity of the line.**  The disparity of a symbol is counted over its
ten bits; after each step of a run the counter is the sum of it over the data symbols since the last
control period, on top of the start if there was none; and on a line that began at zero no stretch
of data is further than 16 from balance. -/
theorem disparity_eq_line :
    (∀ s : Symbol, s.disparity = surplus s.bits) ∧
    (∀ (e : Encoder) (ps : List Payload) (k : Nat) (x : Symbol × Encoder),
      (e.run ps)[k]? = some x →
      x.2.disparity = (if ((e.sent ps).take (k + 1)).all (·.1.isData) then e.disparity else 0)
        + ((sinceControl ((e.sent ps).take (k + 1))).map Symbol.disparity).sum) ∧
    ∀ (ps : List Payload) (i n : Nat), (∀ p ∈ (ps.drop i).take n, p.isData) →
      (((((symbols {} ps).drop i).take n).map Symbol.disparity).sum).natAbs ≤ 16 := by
  refine ⟨Symbol.disparity_eq_surplus, ?_, ?_⟩
  · intro e ps k x hx
    rw [snd_of_getElem?_run hx, disparity_after, sent_take]
  · intro ps i n h
    -- the stretch leads from one settled disparity to another
    rw [← symbols_drop, ← symbols_take, sum_symbols_of_isData _ h, ← after_append]
    obtain ⟨-, hstart⟩ := settled_after (ps.take i)
    obtain ⟨-, hend⟩ := settled_after (ps.take i ++ (ps.drop i).take n)
    omega

/-- Two bytes lead from -8 through 0 to 8. -/
theorem disparity_eq_line_attained :
    ((((symbols {} [.data 0x00, .data 0xFE, .data 0xFE]).drop 1).take 2).map
      Symbol.disparity).sum = 16 ∧
    (((((symbols {} [.data 0x00, .data 0xFE, .data 0xFE]).drop 1).take 2).map
      Symbol.disparity).sum).natAbs ≤ 16 :=
  ⟨by decide, disparity_eq_line.2.2 [.data 0x00, .data 0xFE, .data 0xFE] 1 2 (by decide)⟩

end Encoder

end LineCode
