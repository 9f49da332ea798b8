import LineCode.Capture.Read
import LineCode.Encoder

/-!
# Playing captures back

The samples of a capture are given to one fresh encoder, in order.  Each symbol is compared with the
recorded one and, in a data period, decoded and compared with the byte that went in.
-/

namespace LineCode.Capture

namespace Sample

/-- The payload that a sample asks for. -/
def toPayload (s : Sample) : Except OutOfRange Payload :=
  Payload.ofInputs s.data.toInt s.dataPeriod s.control.toInt

variable (s : Sample) (row : Nat) (symbol : Symbol) (after : Encoder)

/-- The deviation of a symbol from the recorded one. -/
def symbolDeviation? : Option Deviation :=
  if symbol.toNat = s.expected.toNat then none
  else some ⟨row, s, .symbol symbol after.disparity⟩

/-- The deviation of a decoded symbol from the byte that went in. -/
def decodedDeviation? : Option Deviation :=
  if s.dataPeriod ∧ (symbol.decode.toNat : Int) ≠ s.data.toInt then
    some ⟨row, s, .decoded symbol.decode⟩
  else none

def deviations : List Deviation :=
  (s.symbolDeviation? row symbol after).toList ++ (s.decodedDeviation? row symbol).toList

/-- What comparing a sample with its symbol tells. -/
def events : List Event :=
  (s.symbolDeviation? row symbol after).toList.map .deviated
    ++ (if s.dataPeriod then symbol.decodeEvents else [])
    ++ (s.decodedDeviation? row symbol).toList.map .deviated

end Sample

/-- The deviations of samples, the first of which has the given number. -/
def deviationsFrom (e : Encoder) (row : Nat) : List Sample → Except OutOfRange (List Deviation)
  | [] => .ok []
  | s :: ss => do
    let (symbol, after) := e.encode (← s.toPayload)
    return s.deviations row symbol after ++ (← deviationsFrom after (row + 1) ss)

/-- What playing samples back tells, up to the first that is out of range. -/
def eventsFrom (e : Encoder) (row : Nat) : List Sample → List Event
  | [] => []
  | s :: ss =>
    match s.toPayload with
    | .error _ => []
    | .ok p =>
      let (symbol, after) := e.encode p
      e.events p ++ s.events row symbol after ++ eventsFrom after (row + 1) ss

/-- Plays samples back.  Only a sample that is out of range is an error. -/
def playback (samples : List Sample) : Except OutOfRange Verdict :=
  (deviationsFrom {} 1 samples).map (⟨samples.length, ·⟩)

def Verdict.summary (v : Verdict) : Event :=
  if v.isClean then .allPassed v.samples else .someFailed v.deviations.length v.samples

/-- What playing samples back tells. -/
def playbackEvents (samples : List Sample) : List Event :=
  eventsFrom {} 1 samples ++
    match playback samples with
    | .error _ => []
    | .ok v => [v.summary]

/-- Reads a capture and plays it back. -/
def verify (s : Table.Source) : Except ReadError Verdict :=
  (read s).bind fun samples => (playback samples).mapError .outOfRange

/-- What reading a capture and playing it back tells. -/
def verifyEvents (s : Table.Source) : List Event :=
  readEvents s ++
    match read s with
    | .error _ => []
    | .ok samples => playbackEvents samples

end LineCode.Capture
