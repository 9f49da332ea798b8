import LineCode.Stream.Fault

/-!
# Sinks of bytes

A sink takes a part of what it is given and says how much.  `writeAll` goes on with the rest until
nothing is left.  It ends because a sink has a patience that never grows and that every
interruption uses up: each call takes a byte, costs patience, or is the last.
-/

namespace LineCode.Stream

class ByteSink (σ : Type) where
  /-- Takes bytes from the front of the buffer and tells how many. -/
  write : σ → List UInt8 → Except Fault Nat × σ
  flush : σ → Except Fault Unit × σ
  /-- A bound on the interruptions still to come. -/
  patience : σ → Nat
  patience_write_le : ∀ s buf, patience (write s buf).2 ≤ patience s
  patience_write_lt : ∀ s buf f, (write s buf).1 = .error f → f.IsInterrupted →
    patience (write s buf).2 < patience s

namespace ByteSink

variable {σ : Type} [ByteSink σ]

/-- Writes until nothing is left or a fault that is no interruption comes.  A sink that takes
nothing has stalled. -/
def writeAll (s : σ) (buf : List UInt8) : Except Fault Unit × σ :=
  if _hb : buf = [] then (.ok (), s)
  else
    match _hw : write s buf with
    | (.ok 0, s') => (.error .stalled, s')
    | (.ok (n + 1), s') => writeAll s' (buf.drop (n + 1))
    | (.error f, s') => if _hf : f.IsInterrupted then writeAll s' buf else (.error f, s')
termination_by patience s + buf.length
decreasing_by
  · have := patience_write_le s buf
    have := List.length_pos_iff.mpr _hb
    simp_all only [List.length_drop]; omega
  · have := patience_write_lt s buf f
    simp_all

@[simp] theorem writeAll_nil (s : σ) : writeAll s [] = (.ok (), s) := by
  rw [writeAll, dif_pos rfl]

theorem writeAll_of_zero {s s' : σ} {buf : List UInt8} (hb : buf ≠ [])
    (h : write s buf = (.ok 0, s')) : writeAll s buf = (.error .stalled, s') := by
  rw [writeAll, dif_neg hb]
  split <;> simp_all

theorem writeAll_of_ok {s s' : σ} {buf : List UInt8} {n : Nat} (hb : buf ≠ [])
    (h : write s buf = (.ok (n + 1), s')) : writeAll s buf = writeAll s' (buf.drop (n + 1)) := by
  rw [writeAll, dif_neg hb]
  split <;> simp_all

theorem writeAll_of_interrupted {s s' : σ} {buf : List UInt8} {f : Fault} (hb : buf ≠ [])
    (h : write s buf = (.error f, s')) (hf : f.IsInterrupted) :
    writeAll s buf = writeAll s' buf := by
  rw [writeAll, dif_neg hb]
  split <;> simp_all

theorem writeAll_of_error {s s' : σ} {buf : List UInt8} {f : Fault} (hb : buf ≠ [])
    (h : write s buf = (.error f, s')) (hf : ¬ f.IsInterrupted) :
    writeAll s buf = (.error f, s') := by
  rw [writeAll, dif_neg hb]
  split <;> simp_all

theorem patience_writeAll_le (s : σ) (buf : List UInt8) :
    patience (writeAll s buf).2 ≤ patience s := by
  fun_induction writeAll s buf with
  | case1 => simp
  | case2 s buf _ s' hw => simpa [hw] using patience_write_le s buf
  | case3 s buf _ n s' hw ih =>
    exact Nat.le_trans ih (by simpa [hw] using patience_write_le s buf)
  | case4 s buf _ f s' hw _ ih =>
    exact Nat.le_trans ih (by simpa [hw] using patience_write_le s buf)
  | case5 s buf _ f s' hw _ => simpa [hw] using patience_write_le s buf

/-- Interruptions are never passed on. -/
theorem not_isInterrupted_of_writeAll {s : σ} {buf : List UInt8} {f : Fault}
    (h : (writeAll s buf).1 = .error f) : ¬ f.IsInterrupted := by
  fun_induction writeAll s buf with
  | case1 => simp at h
  | case2 => cases h; decide
  | case3 _ _ _ _ _ _ ih => exact ih h
  | case4 _ _ _ _ _ _ _ ih => exact ih h
  | case5 _ _ _ _ _ _ hf => cases h; exact hf

end ByteSink

end LineCode.Stream
