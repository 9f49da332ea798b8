import LineCode.Encoder
import LineCode.Stream.ByteSink

/-!
# Transmitters

A transmitter encodes payloads onto a sink, two bytes a symbol.  The disparity moves only with
symbols that the sink took whole: where one fails, the encoder is what it was before.
-/

namespace LineCode.Stream

structure Transmitter (σ : Type) where
  encoder : Encoder := {}
  sink : σ
  /-- What was told so far. -/
  journal : List Event := []

namespace Transmitter

variable {σ : Type} [ByteSink σ]

/-- Sends one payload. -/
def send (t : Transmitter σ) (p : Payload) : Except Fault Unit × Transmitter σ :=
  let encoded := t.encoder.encode p
  let journal := t.journal ++ t.encoder.events p
  match ByteSink.writeAll t.sink encoded.1.bytes with
  | (.ok (), sink) => (.ok (), { encoder := encoded.2, sink, journal })
  | (.error f, sink) =>
    (.error f, { t with sink, journal := journal ++ [.rolledBack t.encoder.disparity] })

/-- Sends bytes one after another until one fails.  Tells how many went through, and the fault that
ended it. -/
def sendBytes (t : Transmitter σ) : List UInt8 → Nat × Option Fault × Transmitter σ
  | [] => (0, none, t)
  | b :: bs =>
    match t.send (.data b) with
    | (.ok (), t) =>
      let (n, fault, t) := t.sendBytes bs
      (n + 1, fault, t)
    | (.error f, t) => (0, some f, t)

/-- Sends the bytes of a buffer.  A fault is passed on only if no byte went through. -/
def write (t : Transmitter σ) (buf : List UInt8) : Except Fault Nat × Transmitter σ :=
  match t.sendBytes buf with
  | (0, some f, t) => (.error f, t)
  | (n, _, t) => (.ok n, t)

def flush (t : Transmitter σ) : Except Fault Unit × Transmitter σ :=
  let (result, sink) := ByteSink.flush t.sink
  (result, { t with sink })

/-- Ends the stream. -/
def close (t : Transmitter σ) : Except Fault Unit × Transmitter σ :=
  t.flush

theorem send_of_ok {t : Transmitter σ} {p : Payload} {sink : σ}
    (h : ByteSink.writeAll t.sink (t.encoder.encode p).1.bytes = (.ok (), sink)) :
    t.send p = (.ok (), ⟨(t.encoder.encode p).2, sink, t.journal ++ t.encoder.events p⟩) := by
  simp [send, h]

theorem send_of_error {t : Transmitter σ} {p : Payload} {f : Fault} {sink : σ}
    (h : ByteSink.writeAll t.sink (t.encoder.encode p).1.bytes = (.error f, sink)) :
    t.send p = (.error f, ⟨t.encoder, sink,
      t.journal ++ t.encoder.events p ++ [.rolledBack t.encoder.disparity]⟩) := by
  simp [send, h]

/-! ## As a sink -/

theorem patience_send_le (t : Transmitter σ) (p : Payload) :
    ByteSink.patience (t.send p).2.sink ≤ ByteSink.patience t.sink := by
  have h := ByteSink.patience_writeAll_le t.sink (t.encoder.encode p).1.bytes
  rcases hw : ByteSink.writeAll t.sink (t.encoder.encode p).1.bytes with ⟨_ | _, sink⟩
  · rw [send_of_error hw]; simpa [hw] using h
  · rw [send_of_ok hw]; simpa [hw] using h

theorem patience_sendBytes_le (t : Transmitter σ) (bs : List UInt8) :
    ByteSink.patience (t.sendBytes bs).2.2.sink ≤ ByteSink.patience t.sink := by
  induction bs generalizing t with
  | nil => simp [sendBytes]
  | cons b bs ih =>
    have h := t.patience_send_le (.data b)
    rw [sendBytes]
    split
    · rename_i hs
      rw [hs] at h
      exact Nat.le_trans (ih _) h
    · rename_i hs
      simpa [hs] using h

theorem not_isInterrupted_of_send {t : Transmitter σ} {p : Payload} {f : Fault}
    (h : (t.send p).1 = .error f) : ¬ f.IsInterrupted := by
  rcases hw : ByteSink.writeAll t.sink (t.encoder.encode p).1.bytes with ⟨g | _, sink⟩
  · rw [send_of_error hw] at h
    cases h
    exact ByteSink.not_isInterrupted_of_writeAll (by rw [hw])
  · simp [send_of_ok hw] at h

theorem not_isInterrupted_of_sendBytes {t : Transmitter σ} {bs : List UInt8} {f : Fault}
    (h : (t.sendBytes bs).2.1 = some f) : ¬ f.IsInterrupted := by
  induction bs generalizing t with
  | nil => simp [sendBytes] at h
  | cons b bs ih =>
    rw [sendBytes] at h
    split at h
    · exact ih h
    · rename_i hs
      obtain rfl := Option.some.inj h
      exact not_isInterrupted_of_send (by rw [hs])

theorem snd_write (t : Transmitter σ) (buf : List UInt8) :
    (t.write buf).2 = (t.sendBytes buf).2.2 := by
  rw [write]
  split <;> simp_all

theorem sendBytes_of_write_error {t : Transmitter σ} {buf : List UInt8} {f : Fault}
    (h : (t.write buf).1 = .error f) : (t.sendBytes buf).2.1 = some f := by
  rw [write] at h
  split at h <;> simp_all

instance : ByteSink (Transmitter σ) where
  write := write
  flush := flush
  patience t := ByteSink.patience t.sink
  patience_write_le t buf := by
    rw [snd_write]; exact patience_sendBytes_le t buf
  patience_write_lt _ _ _ h hf :=
    absurd hf (not_isInterrupted_of_sendBytes (sendBytes_of_write_error h))

/-! ## Steps -/

/-- A call on a transmitter. -/
inductive Step where
  | send (payload : Payload)
  | write (buf : List UInt8)
  | writeAll (buf : List UInt8)
  | flush
  | close
  deriving DecidableEq

/-- Makes a call.  Only `write` answers with a count. -/
def perform (t : Transmitter σ) : Step → Except Fault (Option Nat) × Transmitter σ
  | .send p => (t.send p).map (·.map fun _ => none) id
  | .write buf => (t.write buf).map (·.map some) id
  | .writeAll buf => (ByteSink.writeAll t buf).map (·.map fun _ => none) id
  | .flush => t.flush.map (·.map fun _ => none) id
  | .close => t.close.map (·.map fun _ => none) id

/-- The answers to a list of calls, each with the transmitter after it. -/
def run : Transmitter σ → List Step → List (Except Fault (Option Nat) × Transmitter σ)
  | _, [] => []
  | t, step :: steps => t.perform step :: run (t.perform step).2 steps

end Transmitter

end LineCode.Stream
