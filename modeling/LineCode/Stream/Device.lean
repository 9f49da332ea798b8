import LineCode.Stream.ByteSink

/-!
# Devices with a plan

A device answers its first writes as its plan lays down, and takes everything once the plan is used
up.  It remembers the bytes it took and counts the calls.
-/

namespace LineCode.Stream

/-- What a device does when it is written to. -/
inductive Response where
  /-- Takes at most so many bytes. -/
  | take (most : Nat)
  | fail (kind : FaultKind) (message : String)
  deriving DecidableEq

structure Device where
  plan : List Response := []
  /-- Why flushing fails, if it does. -/
  flushFault : Option Fault := none
  /-- All bytes taken so far. -/
  out : List UInt8 := []
  writes : Nat := 0
  flushes : Nat := 0

namespace Device

/-- Takes the first `n` bytes of a buffer. -/
def accept (d : Device) (buf : List UInt8) (n : Nat) : Device :=
  { d with out := d.out ++ buf.take n, writes := d.writes + 1 }

def write (d : Device) (buf : List UInt8) : Except Fault Nat × Device :=
  match d.plan with
  | [] => (.ok buf.length, d.accept buf buf.length)
  | .take most :: plan =>
    (.ok (min most buf.length), { d.accept buf (min most buf.length) with plan })
  | .fail kind message :: plan => (.error (.device kind message), { d.accept buf 0 with plan })

def flush (d : Device) : Except Fault Unit × Device :=
  let d := { d with flushes := d.flushes + 1 }
  match d.flushFault with
  | none => (.ok (), d)
  | some f => (.error f, d)

instance : ByteSink Device where
  write := write
  flush := flush
  patience d := d.plan.length
  patience_write_le d buf := by
    obtain ⟨plan, _, _, _, _⟩ := d
    rcases plan with _ | ⟨_ | _, plan⟩ <;> simp [write, accept]
  patience_write_lt d buf f h _ := by
    obtain ⟨plan, _, _, _, _⟩ := d
    rcases plan with _ | ⟨_ | _, plan⟩ <;> simp_all [write, accept]

end Device

end LineCode.Stream
