import LineCode.Limit
import LineCode.Text.Numeral

/-!
# Faults of byte streams

Why a call on a stream of bytes failed.  A fault has a kind, by which a caller decides whether to
try again, and a message.
-/

namespace LineCode.Stream

inductive FaultKind where
  | interrupted
  | writeZero
  | brokenPipe
  | invalidData
  | unexpectedEnd
  deriving DecidableEq

inductive Fault where
  /-- The device below said so. -/
  | device (kind : FaultKind) (message : String)
  /-- The device below took nothing of a non-empty buffer. -/
  | stalled
  | outOfRange (cause : OutOfRange)
  /-- The stream was closed between the two bytes of a symbol. -/
  | danglingHalf (half : UInt8)
  deriving DecidableEq

namespace Fault

def kind : Fault → FaultKind
  | device k _ => k
  | stalled => .writeZero
  | outOfRange _ => .invalidData
  | danglingHalf _ => .unexpectedEnd

def message : Fault → String
  | device _ m => m
  | stalled => "failed to write whole buffer"
  | outOfRange e => e.message
  | danglingHalf b => "dangling half symbol 0x" ++ Numeral.hexByte b

/-- An interrupted call is to be tried again. -/
def IsInterrupted (f : Fault) : Prop :=
  f.kind = .interrupted

instance (f : Fault) : Decidable f.IsInterrupted :=
  inferInstanceAs (Decidable (_ = _))

end Fault

end LineCode.Stream
