import LineCode.Event
import LineCode.Stream.ByteSink

/-!
# Receivers

A receiver takes the two bytes of each symbol, decodes it and passes the byte on to a sink.  Where a
buffer ends between two bytes of a symbol the first of them is held until the next call.
-/

namespace LineCode.Stream

structure Receiver (σ : Type) where
  /-- The first byte of a symbol whose second is still to come. -/
  held : Option UInt8 := none
  sink : σ
  /-- What was told so far. -/
  journal : List Event := []

namespace Receiver

variable {σ : Type} [ByteSink σ]

/-- Decodes the symbol of the given value and passes its byte on. -/
def receive (r : Receiver σ) (value : Nat) : Except Fault Unit × Receiver σ :=
  match Symbol.ofInt value with
  | .error e => (.error (.outOfRange e), r)
  | .ok s =>
    let (result, sink) := ByteSink.writeAll r.sink [s.decode]
    (result, { r with sink, journal := r.journal ++ s.decodeEvents })

/-- Keeps the first byte of a symbol. -/
def hold (r : Receiver σ) (half : UInt8) : Receiver σ :=
  { r with held := some half, journal := r.journal ++ [.held half] }

/-- Takes the symbols of a buffer, with nothing held, until one fails; the first byte of a symbol at
the end is held.  Tells how many bytes were consumed, and the fault that ended it. -/
def receivePairs (r : Receiver σ) : List UInt8 → Nat × Option Fault × Receiver σ
  | [] => (0, none, r)
  | [half] => (1, none, r.hold half)
  | high :: low :: rest =>
    match r.receive (Symbol.pairValue high low) with
    | (.ok (), r) =>
      let (n, fault, r) := r.receivePairs rest
      (n + 2, fault, r)
    | (.error f, r) => (0, some f, r)

/-- Takes the bytes of a buffer with nothing held.  A fault is passed on only if no byte was
consumed. -/
def writePairs (r : Receiver σ) (buf : List UInt8) : Except Fault Nat × Receiver σ :=
  match r.receivePairs buf with
  | (0, some f, r) => (.error f, r)
  | (n, _, r) => (.ok n, r)

/-- Takes the bytes of a buffer after a held byte, which stays if the first symbol fails. -/
def writeHolding (r : Receiver σ) (high : UInt8) : List UInt8 → Except Fault Nat × Receiver σ
  | [] => (.ok 0, r)
  | low :: rest =>
    match r.receive (Symbol.pairValue high low) with
    | (.error f, r) => (.error f, r)
    | (.ok (), r) =>
      let (n, _, r) := { r with held := none }.receivePairs rest
      (.ok (n + 1), r)

/-- Takes the bytes of a buffer, after the one that is held if there is one. -/
def write (r : Receiver σ) (buf : List UInt8) : Except Fault Nat × Receiver σ :=
  match r.held with
  | none => r.writePairs buf
  | some high => r.writeHolding high buf

def flush (r : Receiver σ) : Except Fault Unit × Receiver σ :=
  let (result, sink) := ByteSink.flush r.sink
  (result, { r with sink })

/-- Ends the stream: flushes the sink, unless half a symbol is left over. -/
def close (r : Receiver σ) : Except Fault Unit × Receiver σ :=
  match r.held with
  | some half => (.error (.danglingHalf half), r)
  | none => r.flush

/-! ## As a sink -/

theorem patience_receive_le (r : Receiver σ) (value : Nat) :
    ByteSink.patience (r.receive value).2.sink ≤ ByteSink.patience r.sink := by
  rw [receive]
  split
  · exact Nat.le_refl _
  · exact ByteSink.patience_writeAll_le ..

theorem patience_receivePairs_le (r : Receiver σ) (buf : List UInt8) :
    ByteSink.patience (r.receivePairs buf).2.2.sink ≤ ByteSink.patience r.sink := by
  fun_induction receivePairs r buf with
  | case1 => simp
  | case2 => simp [hold]
  | case3 r high low rest r' hr n fault r'' hp ih =>
    have h := r.patience_receive_le (Symbol.pairValue high low)
    simp_all
    omega
  | case4 r high low rest f r' hr =>
    have h := r.patience_receive_le (Symbol.pairValue high low)
    simpa [hr] using h

theorem not_isInterrupted_of_receive {r : Receiver σ} {value : Nat} {f : Fault}
    (h : (r.receive value).1 = .error f) : ¬ f.IsInterrupted := by
  rw [receive] at h
  split at h
  · cases h; simp [Fault.IsInterrupted, Fault.kind]
  · exact ByteSink.not_isInterrupted_of_writeAll h

theorem not_isInterrupted_of_receivePairs {r : Receiver σ} {buf : List UInt8} {f : Fault}
    (h : (r.receivePairs buf).2.1 = some f) : ¬ f.IsInterrupted := by
  fun_induction receivePairs r buf with
  | case1 => simp at h
  | case2 => simp at h
  | case3 r high low rest r' hr n fault r'' hp ih => exact ih (by simpa [hp] using h)
  | case4 r high low rest f' r' hr =>
    obtain rfl := Option.some.inj h
    exact not_isInterrupted_of_receive (by rw [hr])

theorem patience_write_le (r : Receiver σ) (buf : List UInt8) :
    ByteSink.patience (r.write buf).2.sink ≤ ByteSink.patience r.sink := by
  rw [write]
  split
  · have h := r.patience_receivePairs_le buf
    rw [writePairs]
    split <;> simp_all
  · rename_i high _
    fun_cases writeHolding r high buf with
    | case1 => exact Nat.le_refl _
    | case2 low rest f r' hr =>
      simpa [hr] using r.patience_receive_le (Symbol.pairValue high low)
    | case3 low rest r' hr n fault r'' hp =>
      have h := r.patience_receive_le (Symbol.pairValue high low)
      have h' := patience_receivePairs_le { r' with held := none } rest
      rw [hr] at h
      rw [hp] at h'
      exact Nat.le_trans h' h

theorem not_isInterrupted_of_write {r : Receiver σ} {buf : List UInt8} {f : Fault}
    (h : (r.write buf).1 = .error f) : ¬ f.IsInterrupted := by
  rw [write] at h
  split at h
  · have ended : (r.receivePairs buf).2.1 = some f := by
      rw [writePairs] at h
      split at h <;> simp_all
    exact not_isInterrupted_of_receivePairs ended
  · rename_i high _
    fun_cases writeHolding r high buf with
    | case1 => simp [writeHolding] at h
    | case2 low rest f' r' hr =>
      simp only [writeHolding, hr, Except.error.injEq] at h
      exact h ▸ not_isInterrupted_of_receive (by rw [hr])
    | case3 low rest r' hr n fault r'' hp => simp [writeHolding, hr] at h

instance : ByteSink (Receiver σ) where
  write := write
  flush := flush
  patience r := ByteSink.patience r.sink
  patience_write_le := patience_write_le
  patience_write_lt _ _ _ h hf := absurd hf (not_isInterrupted_of_write h)

/-! ## Steps -/

/-- A call on a receiver. -/
inductive Step where
  | receive (value : Nat)
  | write (buf : List UInt8)
  | writeAll (buf : List UInt8)
  | flush
  | close
  deriving DecidableEq

/-- Makes a call.  Only `write` answers with a count. -/
def perform (r : Receiver σ) : Step → Except Fault (Option Nat) × Receiver σ
  | .receive value => (r.receive value).map (·.map fun _ => none) id
  | .write buf => (r.write buf).map (·.map some) id
  | .writeAll buf => (ByteSink.writeAll r buf).map (·.map fun _ => none) id
  | .flush => r.flush.map (·.map fun _ => none) id
  | .close => r.close.map (·.map fun _ => none) id

/-- The answers to a list of calls, each with the receiver after it. -/
def run : Receiver σ → List Step → List (Except Fault (Option Nat) × Receiver σ)
  | _, [] => []
  | r, step :: steps => r.perform step :: run (r.perform step).2 steps

end Receiver

end LineCode.Stream
