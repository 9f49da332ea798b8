import LineCode.Proofs.Stream.Calls
import LineCode.Proofs.Stream.Sending

/-!
# Attempts

Over a device that may fail at any time a call on a transmitter is a row of attempts, each to send
one payload.  An attempt that went through moves the encoder on and leaves its whole symbol in the
device; one that failed moves nothing and leaves at most the first byte.  So the encoder and the
bytes of the device are told by the attempts alone, over any plan and any list of calls.
-/

namespace LineCode.Stream

structure Attempt where
  payload : Payload
  /-- Why it failed, if it did. -/
  fault : Option Fault
  /-- The bytes of its symbol that the device kept. -/
  kept : List UInt8
  deriving DecidableEq

namespace Attempt

def Accepted (a : Attempt) : Prop :=
  a.fault = none

instance : DecidablePred Accepted := fun a => inferInstanceAs (Decidable (a.fault = none))

/-- It failed after the device had taken one of the two bytes. -/
def Torn (a : Attempt) : Prop :=
  ¬ a.Accepted ∧ a.kept.length = 1

instance : DecidablePred Torn := fun _ => inferInstanceAs (Decidable (_ ∧ _))

/-- The device kept of the symbol what it should: all of it if the attempt went through, otherwise
none of its bytes or the first. -/
def Keeps (a : Attempt) (s : Symbol) : Prop :=
  match a.fault with
  | none => a.kept = s.bytes
  | some _ => ∃ n < 2, a.kept = s.bytes.take n

/-- The payloads that went through. -/
def accepted (as : List Attempt) : List Payload :=
  (as.filter Accepted).map payload

/-- A row of attempts that starts at an encoder: each kept what it should of its symbol, which was
encoded after what went through before it. -/
def Kept (e : Encoder) (as : List Attempt) : Prop :=
  ∀ (k : Nat) (a : Attempt), as[k]? = some a →
    a.Keeps ((e.after (accepted (as.take k))).encode a.payload).1

@[simp] theorem accepted_nil : accepted [] = [] := rfl

theorem not_accepted_of_fault {a : Attempt} {f : Fault} (h : a.fault = some f) :
    ¬ a.Accepted := by
  simp [Accepted, h]

theorem accepted_cons_of_accepted {a : Attempt} (h : a.Accepted) (as : List Attempt) :
    accepted (a :: as) = a.payload :: accepted as := by
  simp [accepted, h]

theorem accepted_cons_of_not_accepted {a : Attempt} (h : ¬ a.Accepted) (as : List Attempt) :
    accepted (a :: as) = accepted as := by
  simp [accepted, h]

theorem accepted_append (as bs : List Attempt) :
    accepted (as ++ bs) = accepted as ++ accepted bs := by
  simp [accepted]

theorem Keeps.kept_of_accepted {a : Attempt} {s : Symbol} (h : a.Keeps s) (ha : a.Accepted) :
    a.kept = s.bytes := by
  rwa [Keeps, show a.fault = none from ha] at h

/-- A failed attempt left nothing behind, or it was torn. -/
theorem Keeps.kept_nil_or_torn {a : Attempt} {s : Symbol} (h : a.Keeps s) (ha : ¬ a.Accepted) :
    a.kept = [] ∨ a.Torn := by
  obtain ⟨f, hf⟩ := Option.ne_none_iff_exists'.mp ha
  rw [Keeps, hf] at h
  obtain ⟨n, hn, hkept⟩ := h
  match n, hn with
  | 0, _ => exact .inl hkept
  | 1, _ => exact .inr ⟨ha, by rw [hkept]; rfl⟩

theorem kept_nil (e : Encoder) : Kept e [] := by
  simp [Kept]

theorem kept_singleton {e : Encoder} {a : Attempt} (h : a.Keeps (e.encode a.payload).1) :
    Kept e [a] := by
  intro k b hb
  cases k with
  | zero => cases hb; exact h
  | succ k => simp at hb

theorem Kept.append {e : Encoder} {as bs : List Attempt} (h : Kept e as)
    (h' : Kept (e.after (accepted as)) bs) : Kept e (as ++ bs) := by
  intro k a hk
  by_cases hlt : k < as.length
  · rw [List.getElem?_append_left hlt] at hk
    rw [List.take_append_of_le_length (Nat.le_of_lt hlt)]
    exact h k a hk
  · have hle : as.length ≤ k := Nat.le_of_not_lt hlt
    have first : (as ++ bs).take k = as ++ bs.take (k - as.length) := by
      rw [List.take_append, List.take_of_length_le hle]
    rw [List.getElem?_append_right hle] at hk
    rw [first, accepted_append, Encoder.after_append]
    exact h' (k - as.length) a hk

theorem Kept.head {e : Encoder} {a : Attempt} {as : List Attempt} (h : Kept e (a :: as)) :
    a.Keeps (e.encode a.payload).1 :=
  h 0 a rfl

theorem Kept.tail {e : Encoder} {a : Attempt} {as : List Attempt} (h : Kept e (a :: as)) :
    Kept (e.after (accepted [a])) as := by
  intro k b hk
  have := h (k + 1) b hk
  rwa [List.take_succ_cons, ← List.singleton_append, accepted_append, Encoder.after_append] at this

end Attempt

namespace Transmitter

/-! ## The attempts of a call -/

/-- The attempt that sending a payload makes. -/
def attempt (t : Transmitter Device) (p : Payload) : Attempt where
  payload := p
  fault :=
    match (t.send p).1 with
    | .ok () => none
    | .error f => some f
  kept := (t.send p).2.sink.out.drop t.sink.out.length

/-- The attempts of bytes that are sent one after another until one fails. -/
def byteAttempts (t : Transmitter Device) : List UInt8 → List Attempt
  | [] => []
  | b :: bs =>
    t.attempt (.data b) ::
      match t.send (.data b) with
      | (.ok (), t) => t.byteAttempts bs
      | (.error _, _) => []

/-- The attempts of a call. -/
def attempts (t : Transmitter Device) : Step → List Attempt
  | .send p => [t.attempt p]
  | .write buf => t.byteAttempts buf
  | .writeAll buf => (ByteSink.calls t buf).flatMap fun call => call.1.byteAttempts call.2
  | .flush | .close => []

/-- The attempts of a list of calls. -/
def runAttempts : Transmitter Device → List Step → List Attempt
  | _, [] => []
  | t, step :: steps => t.attempts step ++ runAttempts (t.perform step).2 steps

/-! ## One attempt -/

/-- All that sending a payload can do. -/
theorem send_cases (t : Transmitter Device) (p : Payload) :
    (∃ t', t.send p = (.ok (), t') ∧
      t.attempt p = ⟨p, none, (t.encoder.encode p).1.bytes⟩ ∧
      t'.encoder = (t.encoder.encode p).2 ∧
      t'.sink.out = t.sink.out ++ (t.encoder.encode p).1.bytes) ∨
    ∃ f t' n, t.send p = (.error f, t') ∧ n < 2 ∧
      t.attempt p = ⟨p, some f, (t.encoder.encode p).1.bytes.take n⟩ ∧
      t'.encoder = t.encoder ∧
      t'.sink.out = t.sink.out ++ (t.encoder.encode p).1.bytes.take n := by
  obtain ⟨d, hw, hout⟩ | ⟨f, d, n, hw, hn, hout, -⟩ :=
    t.sink.writeAll_cases (t.encoder.encode p).1.bytes
  · have hs := send_of_ok hw
    refine .inl ⟨_, hs, ?_, rfl, hout⟩
    rw [attempt, hs]
    simp [hout]
  · have hs := send_of_error hw
    refine .inr ⟨f, _, n, hs, hn, ?_, rfl, hout⟩
    rw [attempt, hs]
    simp [hout]

/-! ## From one attempt to a run -/

/-- What can hold between a transmitter, some attempts and the transmitter after them: it holds of
single attempts and goes on from one to the next. -/
structure Composes (R : Transmitter Device → List Attempt → Transmitter Device → Prop) : Prop where
  still : ∀ {t t'}, t'.encoder = t.encoder → t'.sink.out = t.sink.out → t'.journal = t.journal →
    R t [] t'
  trans : ∀ {t t' t'' as bs}, R t as t' → R t' bs t'' → R t (as ++ bs) t''
  send : ∀ t p, R t [t.attempt p] (t.send p).2

section Composes

variable {R : Transmitter Device → List Attempt → Transmitter Device → Prop} (hR : Composes R)
include hR

theorem Composes.sendBytes (t : Transmitter Device) (bs : List UInt8) :
    R t (t.byteAttempts bs) (t.sendBytes bs).2.2 := by
  induction bs generalizing t with
  | nil => exact hR.still rfl rfl rfl
  | cons b bs ih =>
    have first := hR.send t (.data b)
    obtain ⟨t', hs, -⟩ | ⟨f, t', n, hs, -⟩ := t.send_cases (.data b)
    · rw [hs] at first
      simp only [byteAttempts, Transmitter.sendBytes, hs]
      exact hR.trans first (ih t')
    · rw [hs] at first
      simp only [byteAttempts, Transmitter.sendBytes, hs]
      exact first

theorem Composes.write {t t' : Transmitter Device} {buf : List UInt8} {answer : Except Fault Nat}
    (h : ByteSink.write t buf = (answer, t')) : R t (t.byteAttempts buf) t' := by
  have sent : (t.write buf).2 = t' := congrArg Prod.snd h
  rw [← sent, snd_write]
  exact hR.sendBytes t buf

theorem Composes.writeAll (t : Transmitter Device) (buf : List UInt8) :
    R t (t.attempts (.writeAll buf)) (ByteSink.writeAll t buf).2 := by
  rw [attempts]
  fun_induction ByteSink.writeAll t buf with
  | case1 t => rw [ByteSink.calls_nil]; exact hR.still rfl rfl rfl
  | case2 t buf hb t' hw =>
    rw [ByteSink.calls_of_zero hb hw]
    simpa using hR.write hw
  | case3 t buf hb n t' hw ih =>
    rw [ByteSink.calls_of_ok hb hw]
    exact hR.trans (hR.write hw) ih
  | case4 t buf hb f t' hw hf ih =>
    rw [ByteSink.calls_of_interrupted hb hw hf]
    exact hR.trans (hR.write hw) ih
  | case5 t buf hb f t' hw hf =>
    rw [ByteSink.calls_of_error hb hw hf]
    simpa using hR.write hw

theorem Composes.flush (t : Transmitter Device) : R t [] t.flush.2 :=
  hR.still rfl t.sink.out_flush rfl

/-- **What composes holds of a call with its attempts.** -/
theorem Composes.perform (t : Transmitter Device) (step : Step) :
    R t (t.attempts step) (t.perform step).2 := by
  cases step with
  | send p => exact hR.send t p
  | write buf => exact hR.write (Prod.eta _)
  | writeAll buf => exact hR.writeAll t buf
  | flush => exact hR.flush t
  | close => exact hR.flush t

theorem Composes.run (t : Transmitter Device) (steps : List Step) :
    R t (t.runAttempts steps) (t.after steps) := by
  induction steps generalizing t with
  | nil => exact hR.still rfl rfl rfl
  | cons step steps ih => exact hR.trans (hR.perform t step) (ih (t.perform step).2)

end Composes

/-! ## Accounts -/

/-- From `t` to `t'` exactly these attempts were made. -/
structure Accounts (t : Transmitter Device) (as : List Attempt) (t' : Transmitter Device) :
    Prop where
  /-- The encoder moved by what went through. -/
  encoder : t'.encoder = t.encoder.after (Attempt.accepted as)
  /-- The device gained what it kept of each. -/
  out : t'.sink.out = t.sink.out ++ as.flatMap Attempt.kept
  /-- It kept of each what it should. -/
  kept : Attempt.Kept t.encoder as

variable {t t' t'' : Transmitter Device}

theorem Accounts.trans {as bs : List Attempt} (h : Accounts t as t') (h' : Accounts t' bs t'') :
    Accounts t (as ++ bs) t'' := by
  refine ⟨?_, ?_, h.kept.append (h.encoder ▸ h'.kept)⟩
  · rw [h'.encoder, h.encoder, Attempt.accepted_append, Encoder.after_append]
  · rw [h'.out, h.out, List.flatMap_append, List.append_assoc]

theorem accounts_send (t : Transmitter Device) (p : Payload) :
    Accounts t [t.attempt p] (t.send p).2 := by
  obtain ⟨t', hs, ha, hencoder, hout⟩ | ⟨f, t', n, hs, hn, ha, hencoder, hout⟩ := t.send_cases p
  · have through : Attempt.Accepted ⟨p, none, (t.encoder.encode p).1.bytes⟩ := rfl
    rw [hs, ha]
    refine ⟨?_, by simpa using hout, Attempt.kept_singleton rfl⟩
    rw [hencoder, Attempt.accepted_cons_of_accepted through]
    rfl
  · have failed : ¬ Attempt.Accepted ⟨p, some f, (t.encoder.encode p).1.bytes.take n⟩ :=
      Attempt.not_accepted_of_fault rfl
    rw [hs, ha]
    refine ⟨?_, by simpa using hout, Attempt.kept_singleton ⟨n, hn, rfl⟩⟩
    rw [hencoder, Attempt.accepted_cons_of_not_accepted failed]
    rfl

/-- **The attempts of a run account for what it did.** -/
theorem composes_accounts : Composes Accounts where
  still encoder out _ := ⟨encoder, by simpa using out, Attempt.kept_nil _⟩
  trans := Accounts.trans
  send := accounts_send

theorem accounts_writeAll (t : Transmitter Device) (buf : List UInt8) :
    Accounts t (t.attempts (.writeAll buf)) (ByteSink.writeAll t buf).2 :=
  composes_accounts.writeAll t buf

theorem accounts_run (t : Transmitter Device) (steps : List Step) :
    Accounts t (t.runAttempts steps) (t.after steps) :=
  composes_accounts.run t steps

end Transmitter

end LineCode.Stream
