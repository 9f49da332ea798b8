import LineCode.Proofs.Stream.Accounting
import LineCode.Proofs.Stream.Consuming

/-!
# Writes that advance

A write advances if it takes a byte or fails for good.  Where all writes do, writing a buffer to the
end makes no more calls than there are bytes, and it fails only as its last call did.  Transmitters
and receivers are of this kind over any device, and the faults that they pass on are those of the
device below and of values that are no symbols.
-/

namespace LineCode.Stream

/-! ## The row of calls -/

namespace ByteSink

variable {σ : Type} [ByteSink σ]

/-- The write takes a part of the buffer that is not empty, or fails with a fault that is no
interruption. -/
def Advances (s : σ) (buf : List UInt8) : Prop :=
  (∃ n s', write s buf = (.ok n, s') ∧ 1 ≤ n ∧ n ≤ buf.length) ∨
  ∃ f s', write s buf = (.error f, s') ∧ ¬ f.IsInterrupted

theorem Advances.not_zero {s s' : σ} {buf : List UInt8} (h : Advances s buf) :
    write s buf ≠ (.ok 0, s') := by
  intro zero
  obtain ⟨n, _, hw, hn, -⟩ | ⟨f, _, hw, -⟩ := h
  · rw [zero] at hw
    cases hw
    omega
  · rw [zero] at hw
    cases hw

theorem Advances.not_isInterrupted {s s' : σ} {buf : List UInt8} {f : Fault} (h : Advances s buf)
    (hw : write s buf = (.error f, s')) : ¬ f.IsInterrupted := by
  obtain ⟨n, _, hw', -⟩ | ⟨g, _, hw', hg⟩ := h
  · rw [hw] at hw'
    cases hw'
  · rw [hw] at hw'
    cases hw'
    exact hg

/-- Each call but the last takes a byte of the buffer, and so does the last one if it succeeds. -/
theorem length_calls_le (advances : ∀ (s : σ) (buf : List UInt8), buf ≠ [] → Advances s buf)
    (s : σ) (buf : List UInt8) : (calls s buf).length ≤ buf.length := by
  fun_induction writeAll s buf with
  | case1 s => simp
  | case2 s buf hb s' hw => exact absurd hw (advances s buf hb).not_zero
  | case3 s buf hb n s' hw ih =>
    have hlen : 0 < buf.length := List.length_pos_iff.mpr hb
    rw [calls_of_ok hb hw, List.length_cons]
    rw [List.length_drop] at ih
    omega
  | case4 s buf hb f s' hw hf ih => exact absurd hf ((advances s buf hb).not_isInterrupted hw)
  | case5 s buf hb f s' hw hf =>
    have hlen : 0 < buf.length := List.length_pos_iff.mpr hb
    rw [calls_of_error hb hw hf, List.length_singleton]
    omega

theorem ne_nil_of_mem_calls {s : σ} {buf : List UInt8} {call : σ × List UInt8}
    (h : call ∈ calls s buf) : call.2 ≠ [] := by
  fun_induction writeAll s buf with
  | case1 s => simp at h
  | case2 s buf hb s' hw =>
    rw [calls_of_zero hb hw, List.mem_singleton] at h
    rw [h]
    exact hb
  | case3 s buf hb n s' hw ih =>
    rw [calls_of_ok hb hw, List.mem_cons] at h
    obtain rfl | h := h
    · exact hb
    · exact ih h
  | case4 s buf hb f s' hw hf ih =>
    rw [calls_of_interrupted hb hw hf, List.mem_cons] at h
    obtain rfl | h := h
    · exact hb
    · exact ih h
  | case5 s buf hb f s' hw hf =>
    rw [calls_of_error hb hw hf, List.mem_singleton] at h
    rw [h]
    exact hb

/-- Writing a buffer to the end succeeds, or fails as the last of its calls did. -/
theorem writeAll_cases_of_advances
    (advances : ∀ (s : σ) (buf : List UInt8), buf ≠ [] → Advances s buf) (s : σ)
    (buf : List UInt8) :
    (∃ s', writeAll s buf = (.ok (), s')) ∨
    ∃ f s' s₁ rest, writeAll s buf = (.error f, s') ∧
      (calls s buf).getLast? = some (s₁, rest) ∧ write s₁ rest = (.error f, s') := by
  fun_induction writeAll s buf with
  | case1 s => exact .inl ⟨s, rfl⟩
  | case2 s buf hb s' hw => exact absurd hw (advances s buf hb).not_zero
  | case3 s buf hb n s' hw ih =>
    obtain done | ⟨f, s'', s₁, rest, hrest, last, failed⟩ := ih
    · exact .inl done
    · refine .inr ⟨f, s'', s₁, rest, hrest, ?_, failed⟩
      rw [calls_of_ok hb hw, List.getLast?_cons, last]
      rfl
  | case4 s buf hb f s' hw hf ih => exact absurd hf ((advances s buf hb).not_isInterrupted hw)
  | case5 s buf hb f s' hw hf =>
    refine .inr ⟨f, s', s, buf, rfl, ?_, hw⟩
    rw [calls_of_error hb hw hf]
    rfl

end ByteSink

open ByteSink

/-! ## Transmitters -/

namespace Transmitter

theorem advances (t : Transmitter Device) (buf : List UInt8) (h : buf ≠ []) : Advances t buf := by
  have hlen : 0 < buf.length := List.length_pos_iff.mpr h
  cases hw : (t.write buf).1 with
  | ok n =>
    refine .inl ⟨n, (t.write buf).2, Prod.ext hw rfl, ?_⟩
    obtain ⟨hw', -⟩ | ⟨m, f, hw', hm, -⟩ := t.write_cases buf
    · rw [hw] at hw'
      cases hw'
      omega
    · rw [hw] at hw'
      split at hw'
      · cases hw'
      · cases hw'
        omega
  | error f =>
    refine .inr ⟨f, (t.write buf).2, Prod.ext hw rfl, ?_⟩
    exact not_isInterrupted_of_sendBytes (sendBytes_of_write_error hw)

/-- A write that fails failed on its first byte. -/
theorem send_of_write_error {t t' : Transmitter Device} {buf : List UInt8} {f : Fault}
    (h : t.write buf = (.error f, t')) :
    ∃ b bs, buf = b :: bs ∧ t.send (.data b) = (.error f, t') := by
  cases buf with
  | nil => cases h
  | cons b bs =>
    refine ⟨b, bs, rfl, ?_⟩
    rw [write] at h
    obtain ⟨t₁, hs, -⟩ | ⟨g, t₁, -, hs, -⟩ := t.send_cases (.data b)
    · simp [sendBytes, hs] at h
    · simp only [sendBytes, hs, Prod.mk.injEq, Except.error.injEq] at h
      rw [hs, h.1, h.2]

/-- A payload fails as writing its symbol to the sink did. -/
theorem writeAll_of_send_error {t t' : Transmitter Device} {p : Payload} {f : Fault}
    (h : t.send p = (.error f, t')) :
    writeAll t.sink (t.encoder.encode p).1.bytes = (.error f, t'.sink) := by
  cases hw : writeAll t.sink (t.encoder.encode p).1.bytes with
  | mk answer sink =>
    cases answer with
    | error g =>
      rw [send_of_error hw] at h
      cases h
      rfl
    | ok _ =>
      rw [send_of_ok hw] at h
      cases h

end Transmitter

/-! ## Receivers -/

theorem Receiver.advances (r : Receiver Device) (buf : List UInt8) (h : buf ≠ []) :
    Advances r buf := by
  have hlen : 0 < buf.length := List.length_pos_iff.mpr h
  cases hw : r.write buf with
  | mk answer r' =>
    cases answer with
    | ok n =>
      obtain ⟨hn, -⟩ := consumes_of_write hw
      refine .inl ⟨n, r', hw, ?_, hn⟩
      by_cases short : n < buf.length
      · exact (stop_of_write hw short).1
      · omega
    | error f => exact .inr ⟨f, r', hw, not_isInterrupted_of_write (congrArg Prod.fst hw)⟩

/-! ## Main statement -/

/-- **Every write advances**, on transmitters and receivers over any device.  So writing a buffer to
the end takes at most one call a byte, and if it fails, its last call did: a transmitter because its
sink did not take the symbol of the first byte that was left, a receiver because its sink did not
take the byte of the first pair that was left, or because that pair is no symbol. -/
theorem writes_advance :
    (∀ (t : Transmitter Device) (buf : List UInt8),
      (buf ≠ [] → Advances t buf) ∧
      (calls t buf).length ≤ buf.length ∧
      (∀ call ∈ calls t buf, Advances call.1 call.2) ∧
      ((∃ t', writeAll t buf = (.ok (), t')) ∨
        ∃ f t' t₁ b bs, writeAll t buf = (.error f, t') ∧
          (calls t buf).getLast? = some (t₁, b :: bs) ∧ write t₁ (b :: bs) = (.error f, t') ∧
          writeAll t₁.sink (t₁.encoder.encode (.data b)).1.bytes = (.error f, t'.sink))) ∧
    ∀ (r : Receiver Device) (buf : List UInt8),
      (buf ≠ [] → Advances r buf) ∧
      (calls r buf).length ≤ buf.length ∧
      (∀ call ∈ calls r buf, Advances call.1 call.2) ∧
      ((∃ r', writeAll r buf = (.ok (), r')) ∨
        ∃ f r' r₁ rest v vs, writeAll r buf = (.error f, r') ∧
          (calls r buf).getLast? = some (r₁, rest) ∧ write r₁ rest = (.error f, r') ∧
          pairs (r₁.held.toList ++ rest) = v :: vs ∧
          (v < 1024 ∧ writeAll r₁.sink [byteOf v] = (.error f, r'.sink) ∨
            1024 ≤ v ∧ f = .outOfRange ⟨.symbol, v⟩)) := by
  constructor
  · intro t buf
    refine ⟨t.advances buf, length_calls_le Transmitter.advances t buf, ?_, ?_⟩
    · intro call hcall
      exact call.1.advances call.2 (ne_nil_of_mem_calls hcall)
    · obtain done | ⟨f, t', t₁, rest, hw, last, failed⟩ :=
        writeAll_cases_of_advances Transmitter.advances t buf
      · exact .inl done
      · obtain ⟨b, bs, rfl, hs⟩ := Transmitter.send_of_write_error failed
        exact .inr ⟨f, t', t₁, b, bs, hw, last, failed, Transmitter.writeAll_of_send_error hs⟩
  · intro r buf
    refine ⟨r.advances buf, length_calls_le Receiver.advances r buf, ?_, ?_⟩
    · intro call hcall
      exact call.1.advances call.2 (ne_nil_of_mem_calls hcall)
    · obtain done | ⟨f, r', r₁, rest, hw, last, failed⟩ :=
        writeAll_cases_of_advances Receiver.advances r buf
      · exact .inl done
      · obtain ⟨v, vs, hpairs, refused⟩ := Receiver.refusal_of_write failed
        refine .inr ⟨f, r', r₁, rest, v, vs, hw, last, failed, hpairs, ?_⟩
        obtain ⟨hv, hsink, -⟩ | ⟨hv, hf, -⟩ := Receiver.cause_of_receive_error refused
        · exact .inl ⟨hv, hsink⟩
        · exact .inr ⟨hv, hf⟩

/-- A transmitter whose device interrupts, stalls and breaks, so that the second of two calls fails;
and a receiver whose held byte begins a pair that is no symbol. -/
theorem writes_advance_until_broken :
    (let d : Device := { plan := [.fail .interrupted "try again", .take 2, .take 0, .take 1,
      .fail .brokenPipe "sink broke"] }
     let t : Transmitter Device := { sink := d }
     [0xFE, 0x00] ≠ ([] : List UInt8) ∧ Advances t [0xFE, 0x00] ∧
     (t.write [0xFE, 0x00]).1 = .ok 1 ∧ (calls t [0xFE, 0x00]).length = 2 ∧
     ∃ f t' t₁, writeAll t [0xFE, 0x00] = (.error f, t') ∧ write t₁ [0x00] = (.error f, t') ∧
       f = .device .brokenPipe "sink broke") ∧
    (let r : Receiver Device := { held := some 0x04, sink := {} }
     [0x00, 0x01] ≠ ([] : List UInt8) ∧ Advances r [0x00, 0x01] ∧
     (writeAll r [0x00, 0x01]).1 = .error (.outOfRange ⟨.symbol, 1024⟩)) := by
  constructor
  · intro d t
    have hb : [0xFE, 0x00] ≠ ([] : List UInt8) := by decide
    obtain ⟨advances, -, -, ended⟩ := writes_advance.1 t [0xFE, 0x00]
    have broken : (writeAll t [0xFE, 0x00]).1 = .error (.device .brokenPipe "sink broke") := by
      decide +kernel
    have second : ((calls t [0xFE, 0x00]).getLast?.map Prod.snd) = some [0x00] := by
      decide +kernel
    refine ⟨hb, advances hb, by decide +kernel, by decide +kernel, ?_⟩
    obtain ⟨t', hw⟩ | ⟨f, t', t₁, b, bs, hw, last, failed, -⟩ := ended
    · rw [hw] at broken
      cases broken
    · rw [hw] at broken
      rw [last] at second
      cases second
      exact ⟨f, t', t₁, hw, failed, Except.error.inj broken⟩
  · intro r
    have hb : [0x00, 0x01] ≠ ([] : List UInt8) := by decide
    obtain ⟨advances, -, -, -⟩ := writes_advance.2 r [0x00, 0x01]
    exact ⟨hb, advances hb, by decide +kernel⟩

end LineCode.Stream
