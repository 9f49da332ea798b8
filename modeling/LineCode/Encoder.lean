import LineCode.Event

/-!
# The encoder

An encoder holds the running disparity of one line.  Each payload becomes one symbol: data symbols
steer the disparity towards zero, control symbols set it to zero.
-/

namespace LineCode

structure Encoder where
  disparity : Int := 0
  deriving DecidableEq

namespace Encoder

/-- How the running bits are sent at this disparity. -/
def choice (e : Encoder) (m : Minimized) : Balance :=
  .choose e.disparity m.excess

/-- The symbol of one byte, and the encoder after it. -/
def encodeData (e : Encoder) (b : UInt8) : Symbol × Encoder :=
  let m := Minimized.ofByte b
  ((e.choice m).symbol m, ⟨e.disparity + (e.choice m).change m⟩)

/-- The symbol of one payload, and the encoder after it. -/
def encode (e : Encoder) : Payload → Symbol × Encoder
  | .data b => e.encodeData b
  | .control c => (c.symbol, ⟨0⟩)

/-- What encoding a payload tells. -/
def events (e : Encoder) : Payload → List Event
  | .data b =>
    let m := Minimized.ofByte b
    let (s, after) := e.encodeData b
    [.minimized b m e.disparity, .balanced (e.choice m), .emitted s after.disparity]
  | .control c => if e.disparity = 0 then [] else [.reset c e.disparity]

/-! ## Runs -/

/-- The encoder after a list of payloads. -/
def after (e : Encoder) (ps : List Payload) : Encoder :=
  ps.foldl (fun e p => (e.encode p).2) e

/-- The symbols of a list of payloads, each with the encoder after it. -/
def run : Encoder → List Payload → List (Symbol × Encoder)
  | _, [] => []
  | e, p :: ps => e.encode p :: run (e.encode p).2 ps

/-- What encoding a list of payloads tells. -/
def runEvents : Encoder → List Payload → List Event
  | _, [] => []
  | e, p :: ps => e.events p ++ runEvents (e.encode p).2 ps

/-- The symbols of a list of payloads. -/
def symbols (e : Encoder) (ps : List Payload) : List Symbol :=
  (e.run ps).map (·.1)

@[simp] theorem encode_data (e : Encoder) (b : UInt8) : e.encode (.data b) = e.encodeData b := rfl

@[simp] theorem encode_control (e : Encoder) (c : Selector) :
    e.encode (.control c) = (c.symbol, ⟨0⟩) := rfl

@[simp] theorem after_nil (e : Encoder) : e.after [] = e := rfl

@[simp] theorem after_cons (e : Encoder) (p : Payload) (ps : List Payload) :
    e.after (p :: ps) = (e.encode p).2.after ps := rfl

theorem after_append (e : Encoder) (ps qs : List Payload) :
    e.after (ps ++ qs) = (e.after ps).after qs := by
  simp [after]

@[simp] theorem symbols_nil (e : Encoder) : e.symbols [] = [] := rfl

@[simp] theorem symbols_cons (e : Encoder) (p : Payload) (ps : List Payload) :
    e.symbols (p :: ps) = (e.encode p).1 :: (e.encode p).2.symbols ps := rfl

theorem symbols_append (e : Encoder) (ps qs : List Payload) :
    e.symbols (ps ++ qs) = e.symbols ps ++ (e.after ps).symbols qs := by
  induction ps generalizing e with
  | nil => rfl
  | cons p ps ih => simp [ih]

/-! ## Requests -/

/-- A call on an encoder: raw inputs that may be out of range, or a payload. -/
inductive Request where
  | inputs (data : Int) (dataPeriod : Bool) (control : Int)
  | payload (payload : Payload)

/-- The payload that a request asks for. -/
def Request.toPayload : Request → Except OutOfRange Payload
  | .inputs data dataPeriod control => Payload.ofInputs data dataPeriod control
  | .payload p => .ok p

/-- Answers a request.  One that is out of range leaves the encoder as it is. -/
def answer (e : Encoder) (r : Request) : Except OutOfRange Symbol × Encoder :=
  match r.toPayload with
  | .ok p => (.ok (e.encode p).1, (e.encode p).2)
  | .error err => (.error err, e)

/-- What answering a request tells. -/
def answerEvents (e : Encoder) (r : Request) : List Event :=
  match r.toPayload with
  | .ok p => e.events p
  | .error _ => []

/-- The answers to a list of requests, each with the encoder after it. -/
def answers : Encoder → List Request → List (Except OutOfRange Symbol × Encoder)
  | _, [] => []
  | e, r :: rs => e.answer r :: answers (e.answer r).2 rs

/-- What answering a list of requests tells. -/
def answersEvents : Encoder → List Request → List Event
  | _, [] => []
  | e, r :: rs => e.answerEvents r ++ answersEvents (e.answer r).2 rs

end Encoder

end LineCode
