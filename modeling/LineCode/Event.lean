import LineCode.Balance
import LineCode.Capture.Sample
import LineCode.Payload

/-!
# Events

What the encoder, the streams and the readers of captures tell about their work, as values.  Each
event has a level and a message.
-/

namespace LineCode

inductive Level where
  | trace
  | debug
  | info
  | warn
  deriving DecidableEq

inductive Event where
  /-- A byte was made into running bits while the line had this disparity. -/
  | minimized (byte : UInt8) (result : Minimized) (disparity : Int)
  | balanced (choice : Balance)
  /-- A data symbol was chosen, and the line has this disparity with it. -/
  | emitted (symbol : Symbol) (disparity : Int)
  /-- A control period set this disparity to zero. -/
  | reset (selector : Selector) (disparity : Int)
  /-- A symbol did not reach its sink, and the disparity is again this. -/
  | rolledBack (disparity : Int)
  | decoded (symbol : Symbol) (byte : UInt8)
  | notControl (symbol : Symbol)
  | held (half : UInt8)
  | columnsFound (data period control expected : Nat)
  | loaded (samples : Nat)
  | deviated (deviation : Capture.Deviation)
  | allPassed (samples : Nat)
  | someFailed (deviations samples : Nat)

namespace Event

def level : Event → Level
  | minimized .. | balanced .. | emitted .. | rolledBack .. | decoded .. | held .. => .trace
  | reset .. | notControl .. | columnsFound .. => .debug
  | loaded .. | allPassed .. | someFailed .. => .info
  | deviated .. => .warn

def message : Event → String
  | minimized b m disparity =>
    "data " ++ Numeral.hexByte b ++ " -> q_m " ++ Numeral.grouped 9 m.toNat ++ ", diff "
      ++ toString m.excess ++ ", cnt " ++ toString disparity
  | balanced .neutral => "balanced, send by operator"
  | balanced .invert => "would worsen disparity, invert"
  | balanced .keep => "send as is"
  | emitted s disparity => "emit " ++ s.text ++ ", cnt " ++ toString disparity
  | reset c disparity =>
    "control period " ++ c.name ++ ", reset cnt " ++ toString disparity ++ " -> 0"
  | rolledBack disparity => "write failed, roll cnt back to " ++ toString disparity
  | decoded s b => "decode " ++ s.text ++ " -> " ++ Numeral.hexByte b
  | notControl s => s.text ++ " is not a control symbol"
  | held b => "hold half symbol 0x" ++ Numeral.hexByte b
  | columnsFound data period control expected =>
    "fixture columns at [" ++ toString data ++ ", " ++ toString period ++ ", " ++ toString control
      ++ ", " ++ toString expected ++ "]"
  | loaded n => "loaded " ++ toString n ++ " fixture records"
  | deviated d => d.text
  | allPassed n => "all " ++ toString n ++ " fixture records passed"
  | someFailed k n => toString k ++ " errors over " ++ toString n ++ " fixture records"

end Event

/-- What decoding a symbol of a data period tells. -/
def Symbol.decodeEvents (s : Symbol) : List Event :=
  [.decoded s s.decode]

/-- What reading a symbol with its period tells. -/
def Payload.ofSymbolEvents (s : Symbol) (dataPeriod : Bool) : List Event :=
  if dataPeriod then s.decodeEvents
  else if (Selector.ofSymbol? s).isNone then [.notControl s]
  else []

end LineCode
