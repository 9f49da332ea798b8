import LineCode.Symbol

/-!
# Samples of a recorded encoder

A capture is a recording of an encoder at work: what it was given at each step and the symbol it
gave.  A deviation is a step at which the recording and this library disagree.
-/

namespace LineCode.Capture

/-- One recorded step. -/
structure Sample where
  data : Int32
  dataPeriod : Bool
  control : Int32
  expected : UInt16
  deriving DecidableEq

/-- What came out instead of what was recorded. -/
inductive Finding where
  | symbol (got : Symbol) (disparity : Int)
  | decoded (got : UInt8)
  deriving DecidableEq

/-- A step that went otherwise than recorded.  Rows are counted from 1. -/
structure Deviation where
  row : Nat
  sample : Sample
  finding : Finding
  deriving DecidableEq

/-- The outcome of a whole capture. -/
structure Verdict where
  samples : Nat
  deviations : List Deviation
  deriving DecidableEq

def Verdict.isClean (v : Verdict) : Bool :=
  v.deviations.isEmpty

/-! ## Written forms -/

def Sample.text (s : Sample) : String :=
  "data_in 0x" ++ Numeral.hex 2 s.data.toUInt32.toNat ++ ", de " ++ toString s.dataPeriod.toNat
    ++ ", ctrl " ++ toString s.control.toInt

def Deviation.text (d : Deviation) : String :=
  "row " ++ toString d.row ++ ": " ++ d.sample.text ++ ": " ++
    match d.finding with
    | .symbol got disparity =>
      "encoded " ++ got.text ++ " (cnt " ++ toString disparity ++ "), expected "
        ++ Numeral.grouped 10 d.sample.expected.toNat
    | .decoded got => "decoded back to 0x" ++ Numeral.hexByte got

end LineCode.Capture
