import LineCode.Proofs.Stream.Accounting
import LineCode.Proofs.Stream.Link

/-!
# Torn symbols

Writing a buffer to the end goes on after a failure that came behind its first byte, and then sends
the byte that failed again.  If the device had taken one of the two bytes of its symbol, that byte
stays, and all later bytes are out of step.  So success alone does not say that the device holds the
symbols of the buffer: it does exactly if no symbol was torn.
-/

namespace LineCode.Stream.Transmitter

theorem accepted_byteAttempts (t : Transmitter Device) (bs : List UInt8) :
    Attempt.accepted (t.byteAttempts bs) = (bs.take (t.sendBytes bs).1).map .data := by
  induction bs generalizing t with
  | nil => rfl
  | cons b bs ih =>
    obtain ⟨t₁, hs, ha, -⟩ | ⟨f, t₁, n, hs, -, ha, -⟩ := t.send_cases (.data b)
    · have through : (t.attempt (.data b)).Accepted := by rw [ha]; rfl
      simp only [byteAttempts, sendBytes, hs]
      rw [Attempt.accepted_cons_of_accepted through, ih t₁, ha]
      rfl
    · have failed : ¬ (t.attempt (.data b)).Accepted :=
        Attempt.not_accepted_of_fault (by rw [ha])
      simp only [byteAttempts, sendBytes, hs]
      rw [Attempt.accepted_cons_of_not_accepted failed]
      rfl

theorem sendBytes_of_write_ok {t : Transmitter Device} {buf : List UInt8} {n : Nat}
    (h : (t.write buf).1 = .ok n) : (t.sendBytes buf).1 = n := by
  rw [write] at h
  split at h <;> simp_all

/-- A buffer that was written to the end went through once, whatever failed meanwhile. -/
theorem accepted_of_writeAll {t : Transmitter Device} {buf : List UInt8}
    (h : (ByteSink.writeAll t buf).1 = .ok ()) :
    Attempt.accepted (t.attempts (.writeAll buf)) = buf.map .data := by
  rw [attempts]
  fun_induction ByteSink.writeAll t buf with
  | case1 t => rw [ByteSink.calls_nil]; rfl
  | case2 t buf hb t' hw => simp at h
  | case3 t buf hb n t' hw ih =>
    have counted : (t.sendBytes buf).1 = n + 1 := sendBytes_of_write_ok (congrArg Prod.fst hw)
    rw [ByteSink.calls_of_ok hb hw, List.flatMap_cons, Attempt.accepted_append, ih h,
      accepted_byteAttempts, counted, ← List.map_append, List.take_append_drop]
  | case4 t buf hb f t' hw hf ih =>
    have failed : (t.sendBytes buf).2.1 = some f := sendBytes_of_write_error (congrArg Prod.fst hw)
    exact absurd hf (not_isInterrupted_of_sendBytes failed)
  | case5 t buf hb f t' hw hf => simp at h

/-- **What a buffer that was written to the end gains.**  Its bytes went through once each, and the
device gained two bytes for each of them and one for each symbol that was torn meanwhile.  If none
was, these are the symbols of the buffer, and a receiver gets the buffer back from them in any
chunks. -/
theorem writeAll_gains {t t' : Transmitter Device} {buf : List UInt8}
    (h : ByteSink.writeAll t buf = (.ok (), t')) :
    let tries := t.attempts (.writeAll buf)
    let wire := (t.encoder.symbols (buf.map .data)).flatMap Symbol.bytes
    Attempt.accepted tries = buf.map .data ∧
    t'.sink.out.length = t.sink.out.length + 2 * buf.length + tries.countP Attempt.Torn ∧
    ((∀ a ∈ tries, ¬ a.Torn) →
      t'.sink.out = t.sink.out ++ wire ∧
      ∀ d : Device, d.Obliging → ∀ chunks : List (List UInt8), chunks.flatten = wire →
        let r : Receiver Device := { sink := d }
        let calls := chunks.map .writeAll ++ [.close]
        (∀ x ∈ r.run calls, x.1 = .ok none) ∧ (r.after calls).sink.out = d.out ++ buf) := by
  intro tries wire
  have accounts : t.Accounts tries t' := by
    have := t.accounts_writeAll buf
    rwa [h] at this
  have through : Attempt.accepted tries = buf.map .data := accepted_of_writeAll (by rw [h])
  refine ⟨through, ?_, ?_⟩
  · rw [accounts.out, List.length_append, Attempt.length_flatMap_kept accounts.kept, through,
      List.length_map, Nat.add_assoc]
  · intro whole
    constructor
    · rw [accounts.out, Attempt.flatMap_kept_of_not_torn accounts.kept whole, through]
    · intro d hd chunks hchunks r calls
      obtain ⟨answers, out⟩ := receive_symbols (r := r) hd rfl hchunks
      refine ⟨answers, ?_⟩
      rw [out, map_byteOf_symbols, List.map_map]
      exact congrArg (d.out ++ ·) (List.map_id buf)

/-- A failure between two symbols is passed over without harm. -/
theorem writeAll_gains_between :
    let d : Device := { plan := [.take 2, .fail .writeZero "full", .take 1] }
    let t : Transmitter Device := { encoder := {}, sink := d }
    let r : Receiver Device := { sink := {} }
    let w := ByteSink.writeAll t [0xFE, 0x00]
    w = (.ok (), w.2) ∧ (∀ a ∈ t.attempts (.writeAll [0xFE, 0x00]), ¬ a.Torn) ∧ r.sink.Obliging ∧
    w.2.sink.out = [0x02, 0xFF, 0x01, 0x00] ∧
    (r.after [.writeAll [0x02], .writeAll [0xFF, 0x01, 0x00], .close]).sink.out = [0xFE, 0x00] := by
  intro d t r w
  have hw : w = (.ok (), w.2) := Prod.ext (by decide +kernel) rfl
  have hr : r.sink.Obliging := ⟨by decide, rfl⟩
  have whole : ∀ a ∈ t.attempts (.writeAll [0xFE, 0x00]), ¬ a.Torn := by decide +kernel
  obtain ⟨out, arrives⟩ := (writeAll_gains hw).2.2 whole
  have received := (arrives r.sink hr [[0x02], [0xFF, 0x01, 0x00]] (by decide +kernel)).2
  exact ⟨hw, whole, hr, out.trans (by decide +kernel), received⟩

/-- **Success does not mean that the device holds the symbols of the buffer.**  Two of three symbols
are torn and sent again, so that the device gains eight bytes.  A receiver takes them for four
symbols, and it succeeds too. -/
theorem writeAll_ok_of_torn :
    let d : Device := { plan := [.take 2, .take 1, .fail .writeZero "full",
      .take 2, .take 1, .fail .writeZero "full"] }
    let t : Transmitter Device := { encoder := {}, sink := d }
    let r : Receiver Device := { sink := {} }
    let buf : List UInt8 := [0xFE, 0x00, 0x00]
    let sent := ByteSink.writeAll t buf
    let received := ByteSink.writeAll r sent.2.sink.out
    sent.1 = .ok () ∧ sent.2.sink.out.length ≠ 2 * buf.length ∧
    sent.2.sink.out = [0x02, 0xFF, 0x01, 0x01, 0x00, 0x01, 0x01, 0x00] ∧
    (t.encoder.symbols (buf.map .data)).flatMap Symbol.bytes
      = [0x02, 0xFF, 0x01, 0x00, 0x01, 0x00] ∧
    received.1 = .ok () ∧ received.2.close.1 = .ok () ∧
    received.2.sink.out = [0xFE, 0x03, 0xFD, 0x00] := by
  decide +kernel

end LineCode.Stream.Transmitter
