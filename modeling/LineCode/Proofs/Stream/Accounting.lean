import LineCode.Proofs.Stream.Attempts

/-!
# Accounting for attempts

What a device holds after any calls, over any plan: for each attempt in order its whole symbol if it
went through, and none or one of its bytes otherwise.  Without torn symbols these are the symbols of
what went through and nothing else.  The answer of a write says where in its buffer the first
attempt failed.
-/

namespace LineCode.Stream

namespace Attempt

/-! ## Torn symbols -/

/-- Where nothing was torn, what was kept is the symbols of what went through. -/
theorem flatMap_kept_of_not_torn {e : Encoder} {as : List Attempt} (h : Kept e as)
    (whole : ∀ a ∈ as, ¬ a.Torn) :
    as.flatMap kept = (e.symbols (accepted as)).flatMap Symbol.bytes := by
  induction as generalizing e with
  | nil => rfl
  | cons a as ih =>
    have rest := ih h.tail fun b hb => whole b (List.mem_cons_of_mem _ hb)
    rw [List.flatMap_cons, rest]
    by_cases ha : a.Accepted
    · rw [accepted_cons_of_accepted ha, accepted_cons_of_accepted ha, h.head.kept_of_accepted ha]
      rfl
    · obtain hnil | torn := h.head.kept_nil_or_torn ha
      · rw [accepted_cons_of_not_accepted ha, accepted_cons_of_not_accepted ha, hnil]
        rfl
      · exact absurd torn (whole a List.mem_cons_self)

/-- Two bytes were kept of what went through, and one of each symbol that was torn. -/
theorem length_flatMap_kept {e : Encoder} {as : List Attempt} (h : Kept e as) :
    (as.flatMap kept).length = 2 * (accepted as).length + as.countP Torn := by
  induction as generalizing e with
  | nil => rfl
  | cons a as ih =>
    rw [List.flatMap_cons, List.length_append, ih h.tail]
    by_cases ha : a.Accepted
    · have intact : ¬ a.Torn := fun torn => torn.1 ha
      have two : a.kept.length = 2 := by rw [h.head.kept_of_accepted ha]; rfl
      rw [accepted_cons_of_accepted ha, List.countP_cons_of_neg (by simpa using intact), two,
        List.length_cons]
      omega
    · rw [accepted_cons_of_not_accepted ha]
      obtain hnil | torn := h.head.kept_nil_or_torn ha
      · have intact : ¬ a.Torn := by
          rintro ⟨-, hone⟩
          simp [hnil] at hone
        rw [List.countP_cons_of_neg (by simpa using intact), hnil, List.length_nil, Nat.zero_add]
      · rw [List.countP_cons_of_pos (by simpa using torn), torn.2]
        omega

/-! ## Where a row failed

A row of attempts that stopped at a failure has the faults `none, …, none, some f`. -/

/-- The first `n` attempts were made and went through. -/
theorem take_accepted_iff {as : List Attempt} {n : Nat} :
    (n ≤ as.length ∧ ∀ a ∈ as.take n, a.Accepted) ↔
      (as.map fault).take n = List.replicate n none := by
  rw [← List.map_take, List.eq_replicate_iff, List.length_map, List.length_take,
    List.forall_mem_map]
  exact and_congr (by omega) Iff.rfl

theorem getElem?_not_accepted_iff {as : List Attempt} {n : Nat} :
    (∃ a, as[n]? = some a ∧ ¬ a.Accepted) ↔ ∃ f, (as.map fault)[n]? = some (some f) := by
  simp only [Accepted, Option.ne_none_iff_exists', List.getElem?_map, Option.map_eq_some_iff]
  constructor
  · rintro ⟨a, ha, f, hf⟩
    exact ⟨f, a, ha, hf⟩
  · rintro ⟨f, a, ha, hf⟩
    exact ⟨a, ha, f, hf⟩

theorem take_replicate_none_append {α : Type} (n m : Nat) (x : α) :
    (List.replicate m none ++ [some x]).take n = List.replicate n none ↔ n ≤ m := by
  constructor
  · intro h
    refine Nat.le_of_not_lt fun hlt => ?_
    have hmem : some x ∈ (List.replicate m none ++ [some x]).take n := by
      rw [List.take_of_length_le (by simp; omega)]
      exact List.mem_append_right _ List.mem_cons_self
    rw [h] at hmem
    exact absurd (List.eq_of_mem_replicate hmem) (by simp)
  · intro h
    rw [List.take_append_of_le_length (by simpa using h), List.take_replicate, Nat.min_eq_left h]

theorem getElem?_replicate_none_append {α : Type} (n m : Nat) (x : α) :
    (∃ y, (List.replicate m none ++ [some x])[n]? = some (some y)) ↔ n = m := by
  constructor
  · rintro ⟨y, hy⟩
    obtain ⟨hn, -⟩ := List.getElem?_eq_some_iff.mp hy
    rw [List.length_append, List.length_replicate, List.length_singleton] at hn
    by_cases hlt : n < m
    · rw [List.getElem?_append_left (by simpa using hlt), List.getElem?_replicate, if_pos hlt] at hy
      cases hy
    · omega
  · rintro rfl
    exact ⟨x, by simp⟩

end Attempt

namespace Transmitter

/-! ## What the answer of a write says -/

/-- Sending bytes one after another tries all of them or stops behind the first that fails. -/
theorem byteAttempts_cases (t : Transmitter Device) (bs : List UInt8) :
    (∃ t', t.sendBytes bs = (bs.length, none, t') ∧
      (t.byteAttempts bs).map Attempt.fault = List.replicate bs.length none) ∨
    ∃ n f t', t.sendBytes bs = (n, some f, t') ∧ n < bs.length ∧
      (t.byteAttempts bs).map Attempt.fault = List.replicate n none ++ [some f] := by
  induction bs generalizing t with
  | nil => exact .inl ⟨t, rfl, rfl⟩
  | cons b bs ih =>
    obtain ⟨t₁, hs, ha, -⟩ | ⟨f, t₁, n, hs, -, ha, -⟩ := t.send_cases (.data b)
    · simp only [byteAttempts, sendBytes, hs, ha, List.map_cons, List.length_cons]
      obtain ⟨t₂, hrest, faults⟩ | ⟨n, f, t₂, hrest, hn, faults⟩ := ih t₁
      · exact .inl ⟨t₂, by rw [hrest], by rw [faults, List.replicate_succ]⟩
      · refine .inr ⟨n + 1, f, t₂, by rw [hrest], by omega, ?_⟩
        rw [faults, List.replicate_succ, List.cons_append]
    · refine .inr ⟨0, f, t₁, ?_, by simp, ?_⟩
      · simp only [sendBytes, hs]
      · simp only [byteAttempts, hs, ha, List.map_cons, List.map_nil, List.replicate_zero,
          List.nil_append]

/-- The attempts are those on the first bytes, in order. -/
theorem map_payload_byteAttempts (t : Transmitter Device) (bs : List UInt8) :
    (t.byteAttempts bs).map Attempt.payload
      = (bs.take (t.byteAttempts bs).length).map .data := by
  induction bs generalizing t with
  | nil => rfl
  | cons b bs ih =>
    obtain ⟨t₁, hs, ha, -⟩ | ⟨f, t₁, n, hs, -, ha, -⟩ := t.send_cases (.data b)
    · simp only [byteAttempts, hs, ha, List.map_cons, List.length_cons, List.take_succ_cons, ih]
    · simp only [byteAttempts, hs, ha, List.map_cons, List.map_nil, List.length_singleton,
        List.take_succ_cons, List.take_zero]

theorem write_cases (t : Transmitter Device) (buf : List UInt8) :
    ((t.write buf).1 = .ok buf.length ∧
      (t.byteAttempts buf).map Attempt.fault = List.replicate buf.length none) ∨
    ∃ n f, (t.write buf).1 = (if n = 0 then .error f else .ok n) ∧ n < buf.length ∧
      (t.byteAttempts buf).map Attempt.fault = List.replicate n none ++ [some f] := by
  obtain ⟨t', hs, faults⟩ | ⟨n, f, t', hs, hn, faults⟩ := t.byteAttempts_cases buf
  · refine .inl ⟨?_, faults⟩
    rw [write, hs]
    cases buf <;> rfl
  · refine .inr ⟨n, f, ?_, hn, faults⟩
    rw [write, hs]
    cases n <;> rfl

theorem write_eq_ok_iff (t : Transmitter Device) (buf : List UInt8) (n : Nat) :
    (t.write buf).1 = .ok n ↔
      (n ≤ (t.byteAttempts buf).length ∧ ∀ a ∈ (t.byteAttempts buf).take n, a.Accepted) ∧
      (n = buf.length ∨ 1 ≤ n ∧ ∃ a, (t.byteAttempts buf)[n]? = some a ∧ ¬ a.Accepted) := by
  rw [Attempt.take_accepted_iff, Attempt.getElem?_not_accepted_iff]
  obtain ⟨hw, faults⟩ | ⟨m, f, hw, hm, faults⟩ := t.write_cases buf
  · rw [hw, faults]
    constructor
    · intro h
      cases h
      exact ⟨by simp, .inl rfl⟩
    · rintro ⟨-, rfl | ⟨-, f, hf⟩⟩
      · rfl
      · simp [List.getElem?_replicate] at hf
  · rw [hw, faults, Attempt.take_replicate_none_append, Attempt.getElem?_replicate_none_append]
    by_cases hzero : m = 0
    · rw [if_pos hzero]
      exact iff_of_false nofun (by omega)
    · rw [if_neg hzero, Except.ok.injEq]
      omega

theorem write_eq_error_iff (t : Transmitter Device) (buf : List UInt8) (f : Fault) :
    (t.write buf).1 = .error f ↔ ∃ a, (t.byteAttempts buf)[0]? = some a ∧ a.fault = some f := by
  rw [← Option.map_eq_some_iff, ← List.getElem?_map]
  obtain ⟨hw, faults⟩ | ⟨m, g, hw, hm, faults⟩ := t.write_cases buf
  · rw [hw, faults]
    exact iff_of_false nofun (by simp [List.getElem?_replicate])
  · rw [hw, faults]
    cases m with
    | zero => simp
    | succ m => simp [List.replicate_succ]

/-! ## Main statement -/

/-- **Attempts account for every run.**  After any calls over any plan the encoder is the one that
encoded what went through, the device holds what it kept of each attempt, each symbol having been
encoded after what went through before it, and without torn symbols that is the symbols of what went
through.  Then a write counts the bytes before the first attempt that failed, and fails if that was
the attempt on its first byte. -/
theorem run_accounted (e : Encoder) (d : Device) (steps : List Step) :
    let t : Transmitter Device := { encoder := e, sink := d }
    let tries := t.runAttempts steps
    let t' := t.after steps
    t'.encoder = e.after (Attempt.accepted tries) ∧
    t'.sink.out = d.out ++ tries.flatMap Attempt.kept ∧
    (∀ (k : Nat) (a : Attempt), tries[k]? = some a →
      a.Keeps ((e.after (Attempt.accepted (tries.take k))).encode a.payload).1) ∧
    ((∀ a ∈ tries, ¬ a.Torn) →
      t'.sink.out = d.out ++ (e.symbols (Attempt.accepted tries)).flatMap Symbol.bytes) ∧
    ∀ buf : List UInt8,
      let more := t'.attempts (.write buf)
      more.map Attempt.payload = (buf.take more.length).map .data ∧
      (∀ n, (t'.write buf).1 = .ok n ↔
        (n ≤ more.length ∧ ∀ a ∈ more.take n, a.Accepted) ∧
        (n = buf.length ∨ 1 ≤ n ∧ ∃ a, more[n]? = some a ∧ ¬ a.Accepted)) ∧
      ∀ f, (t'.write buf).1 = .error f ↔ ∃ a, more[0]? = some a ∧ a.fault = some f := by
  intro t tries t'
  have accounts : t.Accounts tries t' := t.accounts_run steps
  refine ⟨accounts.encoder, accounts.out, accounts.kept, ?_, ?_⟩
  · intro whole
    rw [accounts.out, Attempt.flatMap_kept_of_not_torn accounts.kept whole]
  · intro buf more
    exact ⟨t'.map_payload_byteAttempts buf, t'.write_eq_ok_iff buf, t'.write_eq_error_iff buf⟩

/-- A symbol that is torn and sent again, and one that fails before its first byte. -/
theorem run_accounted_torn_and_whole :
    (let d : Device := { plan := [.take 2, .take 1, .fail .writeZero "full"] }
     let t : Transmitter Device := { encoder := {}, sink := d }
     let torn : Attempt := ⟨.data 0x00, some (.device .writeZero "full"), [0x01]⟩
     (t.runAttempts [.writeAll [0xFE, 0x00]])[1]? = some torn ∧
     torn.Keeps ((Encoder.after {} [.data 0xFE]).encode (.data 0x00)).1 ∧
     (t.after [.writeAll [0xFE, 0x00]]).sink.out = [0x02, 0xFF, 0x01, 0x01, 0x00]) ∧
    (let d : Device := { plan := [.fail .brokenPipe "sink broke", .take 1] }
     let t : Transmitter Device := { encoder := {}, sink := d }
     let steps : List Step := [.write [0xFE], .flush, .send (.control .c1), .write [0x00]]
     (∀ a ∈ t.runAttempts steps, ¬ a.Torn) ∧
     (t.after steps).sink.out = [0x00, 0xAB, 0x01, 0x00]) := by
  constructor
  · intro d t torn
    have hsecond : (t.runAttempts [.writeAll [0xFE, 0x00]])[1]? = some torn := by decide +kernel
    obtain ⟨-, out, keeps, -⟩ := run_accounted {} d [.writeAll [0xFE, 0x00]]
    have hfirst : Attempt.accepted ((t.runAttempts [.writeAll [0xFE, 0x00]]).take 1)
        = [.data 0xFE] := by decide +kernel
    exact ⟨hsecond, hfirst ▸ keeps 1 torn hsecond, out.trans (by decide +kernel)⟩
  · intro d t steps
    have whole : ∀ a ∈ t.runAttempts steps, ¬ a.Torn := by decide +kernel
    obtain ⟨-, -, -, out, -⟩ := run_accounted {} d steps
    exact ⟨whole, (out whole).trans (by decide +kernel)⟩

end Transmitter

end LineCode.Stream
