import LineCode.Proofs.Stream.Delivery
import LineCode.Stream.Transmitter

/-!
# Sending to an obliging device

Each call on a transmitter asks for a list of payloads.  Over an obliging device every call succeeds
and the device gains the bytes of their symbols, as the encoder gives them from its disparity.
-/

namespace LineCode.Stream.Transmitter

/-! ## Calls -/

/-- The payloads that a call asks for. -/
def Step.payloads : Step → List Payload
  | .send p => [p]
  | .write buf | .writeAll buf => buf.map .data
  | .flush | .close => []

/-- The answer to a call that succeeds in full. -/
def Step.answer : Step → Option Nat
  | .write buf => some buf.length
  | _ => none

/-- The transmitter after a list of calls. -/
def after {σ : Type} [ByteSink σ] (t : Transmitter σ) (steps : List Step) : Transmitter σ :=
  steps.foldl (fun t step => (t.perform step).2) t

/-! ## What is sent -/

/-- From `t` to `t'` exactly the given payloads went out. -/
structure Sends (t : Transmitter Device) (ps : List Payload) (t' : Transmitter Device) : Prop where
  encoder : t'.encoder = t.encoder.after ps
  out : t'.sink.out = t.sink.out ++ (t.encoder.symbols ps).flatMap Symbol.bytes
  obliging : t'.sink.Obliging

variable {t t' t'' : Transmitter Device}

theorem sends_nil (h : t.sink.Obliging) : Sends t [] t :=
  ⟨rfl, by simp, h⟩

theorem Sends.trans {ps qs : List Payload} (h : Sends t ps t') (h' : Sends t' qs t'') :
    Sends t (ps ++ qs) t'' := by
  refine ⟨?_, ?_, h'.obliging⟩
  · rw [h'.encoder, h.encoder, Encoder.after_append]
  · rw [h'.out, h.out, h.encoder, Encoder.symbols_append, List.flatMap_append, List.append_assoc]

theorem send_of_obliging (h : t.sink.Obliging) (p : Payload) :
    ∃ t', t.send p = (.ok (), t') ∧ Sends t [p] t' := by
  obtain ⟨d, hw, hd, hout⟩ := h.writeAll (t.encoder.encode p).1.bytes
  exact ⟨_, send_of_ok hw, rfl, by simpa using hout, hd⟩

theorem sendBytes_of_obliging (h : t.sink.Obliging) (bs : List UInt8) :
    ∃ t', t.sendBytes bs = (bs.length, none, t') ∧ Sends t (bs.map .data) t' := by
  induction bs generalizing t with
  | nil => exact ⟨t, rfl, sends_nil h⟩
  | cons b bs ih =>
    obtain ⟨t₁, hb, first⟩ := send_of_obliging h (.data b)
    obtain ⟨t₂, hbs, rest⟩ := ih first.obliging
    refine ⟨t₂, ?_, first.trans rest⟩
    simp only [sendBytes, hb, hbs, List.length_cons]

theorem write_of_obliging (h : t.sink.Obliging) (buf : List UInt8) :
    ∃ t', t.write buf = (.ok buf.length, t') ∧ Sends t (buf.map .data) t' := by
  obtain ⟨t', hs, sends⟩ := sendBytes_of_obliging h buf
  refine ⟨t', ?_, sends⟩
  rw [write, hs]
  cases buf <;> rfl

theorem writeAll_of_obliging (h : t.sink.Obliging) (buf : List UInt8) :
    ∃ t', ByteSink.writeAll t buf = (.ok (), t') ∧ Sends t (buf.map .data) t' := by
  cases buf with
  | nil => exact ⟨t, ByteSink.writeAll_nil t, sends_nil h⟩
  | cons b bs =>
    obtain ⟨t', hw, sends⟩ := write_of_obliging h (b :: bs)
    refine ⟨t', ?_, sends⟩
    -- the one call takes everything, so the loop goes on with nothing
    rw [ByteSink.writeAll_of_ok (by simp) (show ByteSink.write t (b :: bs) = _ from hw)]
    simp

theorem flush_of_obliging (h : t.sink.Obliging) :
    ∃ t', t.flush = (.ok (), t') ∧ Sends t [] t' := by
  obtain ⟨d, hf, hd, hout⟩ := h.flush_ok
  refine ⟨{ t with sink := d }, ?_, rfl, by simp [hout], hd⟩
  rw [flush, hf]

/-! ## Runs -/

/-- **A call succeeds in full** and sends exactly the payloads it asks for. -/
theorem perform_of_obliging (h : t.sink.Obliging) (step : Step) :
    ∃ t', t.perform step = (.ok step.answer, t') ∧ Sends t step.payloads t' := by
  cases step with
  | send p =>
    obtain ⟨t', hs, sends⟩ := send_of_obliging h p
    exact ⟨t', by rw [perform, hs]; rfl, sends⟩
  | write buf =>
    obtain ⟨t', hs, sends⟩ := write_of_obliging h buf
    exact ⟨t', by rw [perform, hs]; rfl, sends⟩
  | writeAll buf =>
    obtain ⟨t', hs, sends⟩ := writeAll_of_obliging h buf
    exact ⟨t', by rw [perform, hs]; rfl, sends⟩
  | flush =>
    obtain ⟨t', hs, sends⟩ := flush_of_obliging h
    exact ⟨t', by rw [perform, hs]; rfl, sends⟩
  | close =>
    obtain ⟨t', hs, sends⟩ := flush_of_obliging h
    exact ⟨t', by rw [perform, close, hs]; rfl, sends⟩

theorem run_of_obliging (h : t.sink.Obliging) (steps : List Step) :
    (t.run steps).map (·.1) = steps.map (fun step => .ok step.answer) ∧
      Sends t (steps.flatMap Step.payloads) (t.after steps) := by
  induction steps generalizing t with
  | nil => exact ⟨rfl, sends_nil h⟩
  | cons step steps ih =>
    obtain ⟨t', hstep, first⟩ := perform_of_obliging h step
    obtain ⟨answers, rest⟩ := ih first.obliging
    constructor
    · simp only [run, hstep, List.map_cons, answers]
    · rw [after, List.foldl_cons, hstep]
      exact first.trans rest

end LineCode.Stream.Transmitter
