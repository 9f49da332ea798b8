import Mathlib.Data.List.Basic
import LineCode.Proofs.Stream.Calls
import LineCode.Proofs.Stream.Receiving

/-!
# Consuming bytes over any device

Whatever its device does, a receiver has passed on the pairs of exactly those bytes that it counts,
and holds what is left over of them.  It stops in front of a pair that is no symbol or that the
device did not take; of such a pair nothing is lost, and it can be written again.
-/

namespace LineCode.Stream

/-- What is left over is the last byte, if the number of bytes is odd. -/
theorem leftover_eq (bs : List UInt8) :
    leftover bs = if bs.length % 2 = 1 then bs.getLast? else none := by
  fun_induction leftover bs with
  | case1 => rfl
  | case2 half => rfl
  | case3 high low rest ih =>
    have parity : (high :: low :: rest).length % 2 = rest.length % 2 := by
      simp only [List.length_cons]; omega
    rw [ih, parity]
    by_cases hodd : rest.length % 2 = 1
    · have hne : rest ≠ [] := by rintro rfl; simp at hodd
      rw [if_pos hodd, if_pos hodd, List.getLast?_cons_of_ne_nil (by simp),
        List.getLast?_cons_of_ne_nil hne]
    · rw [if_neg hodd, if_neg hodd]

namespace Receiver

/-! ## One symbol -/

/-- All that receiving a value can do. -/
theorem receive_cases (r : Receiver Device) (v : Nat) :
    (v < 1024 ∧ ∃ r', r.receive v = (.ok (), r') ∧ r'.held = r.held ∧
      r'.sink.out = r.sink.out ++ [byteOf v]) ∨
    (v < 1024 ∧ ∃ f r', r.receive v = (.error f, r') ∧ r'.held = r.held ∧
      r'.sink.out = r.sink.out ∧ ByteSink.writeAll r.sink [byteOf v] = (.error f, r'.sink) ∧
      r.sink.Faults f) ∨
    (1024 ≤ v ∧ r.receive v = (.error (.outOfRange ⟨.symbol, v⟩), r)) := by
  by_cases hv : v < 1024
  · have hs := Symbol.ofInt_of_lt hv
    obtain ⟨d, hw, hout⟩ | ⟨f, d, n, hw, hn, hout, hf⟩ :=
      r.sink.writeAll_cases [(Symbol.ofBits v).decode]
    · refine .inl ⟨hv, ⟨r.held, d, r.journal ++ (Symbol.ofBits v).decodeEvents⟩, ?_, rfl, hout⟩
      rw [receive, hs]
      simp only [hw]
    · -- one byte is taken whole or not at all
      have none_taken : n = 0 := by simpa using hn
      refine .inr (.inl ⟨hv, f, ⟨r.held, d, r.journal ++ (Symbol.ofBits v).decodeEvents⟩, ?_, rfl,
        ?_, hw, hf⟩)
      · rw [receive, hs]
        simp only [hw]
      · simpa [none_taken] using hout
  · have hle : 1024 ≤ v := Nat.le_of_not_lt hv
    exact .inr (.inr ⟨hle, by rw [receive, Symbol.ofInt_of_le hle]⟩)

/-- A value that is refused changes neither what is held nor what was passed on. -/
theorem unchanged_of_receive_error {r r' : Receiver Device} {v : Nat} {f : Fault}
    (h : r.receive v = (.error f, r')) : r'.held = r.held ∧ r'.sink.out = r.sink.out := by
  obtain ⟨-, _, hr, -⟩ | ⟨-, _, _, hr, held, out, -⟩ | ⟨-, hr⟩ := r.receive_cases v
  · simp [hr] at h
  · rw [hr] at h
    cases h
    exact ⟨held, out⟩
  · rw [hr] at h
    cases h
    exact ⟨rfl, rfl⟩

/-- A value is refused because the device did not take its byte, or because it is no symbol. -/
theorem cause_of_receive_error {r r' : Receiver Device} {v : Nat} {f : Fault}
    (h : r.receive v = (.error f, r')) :
    (v < 1024 ∧ ByteSink.writeAll r.sink [byteOf v] = (.error f, r'.sink) ∧ r.sink.Faults f) ∨
    (1024 ≤ v ∧ f = .outOfRange ⟨.symbol, v⟩ ∧ r' = r) := by
  obtain ⟨-, _, hr, -⟩ | ⟨hv, _, _, hr, -, -, hsink, hf⟩ | ⟨hv, hr⟩ := r.receive_cases v
  · simp [hr] at h
  · rw [hr] at h
    cases h
    exact .inl ⟨hv, hsink, hf⟩
  · rw [hr] at h
    cases h
    exact .inr ⟨hv, rfl, rfl⟩

/-! ## Bytes that were consumed -/

/-- From `r` to `r'` exactly the given bytes were consumed. -/
structure Consumes (r : Receiver Device) (bs : List UInt8) (r' : Receiver Device) : Prop where
  reads : r.Reads bs
  held : r'.held = leftover (r.held.toList ++ bs)
  out : r'.sink.out = r.sink.out ++ (pairs (r.held.toList ++ bs)).map byteOf

variable {r r' r'' : Receiver Device}

theorem consumes_nil (r : Receiver Device) : Consumes r [] r := by
  refine ⟨?_, ?_, ?_⟩
  · intro v hv
    cases hr : r.held <;> simp [hr] at hv
  · cases r.held <;> rfl
  · cases r.held <;> simp

theorem Consumes.congr {bs : List UInt8} (h : Consumes r bs r') (held : r''.held = r'.held)
    (out : r''.sink.out = r'.sink.out) : Consumes r bs r'' :=
  ⟨h.reads, held.trans h.held, out.trans h.out⟩

/-- A pair in front of bytes that are consumed with nothing held: its first byte was held or was the
first of the buffer. -/
theorem Consumes.pair {high low : UInt8} {bs rest : List UInt8} (h : Consumes r' rest r'')
    (hbs : r.held.toList ++ bs = high :: low :: rest) (hv : Symbol.pairValue high low < 1024)
    (held : r'.held = none)
    (out : r'.sink.out = r.sink.out ++ [byteOf (Symbol.pairValue high low)]) :
    Consumes r bs r'' := by
  have hrest : r'.held.toList ++ rest = rest := by rw [held]; rfl
  refine ⟨?_, ?_, ?_⟩
  · intro v hmem
    rw [hbs, pairs_cons_cons] at hmem
    rcases List.mem_cons.mp hmem with rfl | hmem
    · exact hv
    · exact h.reads v (by rwa [hrest])
  · rw [h.held, hrest, hbs, leftover_cons_cons]
  · rw [h.out, hrest, out, hbs, pairs_cons_cons, List.map_cons, List.append_assoc]
    rfl

/-! ## Calls -/

/-- All that taking the symbols of a buffer can do, with nothing held.  If it stops early, the bytes
before the pair where it stopped are consumed as if they had been the whole buffer. -/
theorem receivePairs_cases (hr : r.held = none) (buf : List UInt8) :
    (∃ r', r.receivePairs buf = (buf.length, none, r') ∧ Consumes r buf r') ∨
    ∃ n f r₁ r' high low rest, r.receivePairs buf = (n, some f, r') ∧
      buf.drop n = high :: low :: rest ∧
      r.receivePairs (buf.take n) = (n, none, r₁) ∧ Consumes r (buf.take n) r₁ ∧
      r₁.held = none ∧ r₁.receive (Symbol.pairValue high low) = (.error f, r') := by
  induction buf using pairs.induct generalizing r with
  | case1 high low rest ih =>
    have stop {f : Fault} {r' : Receiver Device}
        (h : r.receive (Symbol.pairValue high low) = (.error f, r')) :
        r.receivePairs (high :: low :: rest) = (0, some f, r') := by
      simp only [receivePairs, h]
    obtain ⟨hv, r₁, hpair, held, out⟩ | ⟨-, f, r', hpair, -⟩ | ⟨-, hpair⟩ :=
      r.receive_cases (Symbol.pairValue high low)
    · have hr₁ : r₁.held = none := held.trans hr
      obtain ⟨r₂, hrest, consumed⟩ | ⟨n, f, r₂, r', high', low', rest', hrest, hdrop, htake,
        consumed, hr₂, hstop⟩ := ih hr₁
      · refine .inl ⟨r₂, ?_, consumed.pair (by rw [hr]; rfl) hv hr₁ out⟩
        simp only [receivePairs, hpair, hrest, List.length_cons]
      · refine .inr ⟨n + 2, f, r₂, r', high', low', rest', ?_, hdrop, ?_, ?_, hr₂, hstop⟩
        · simp only [receivePairs, hpair, hrest]
        · simp only [List.take_succ_cons, receivePairs, hpair, htake]
        · exact consumed.pair (by rw [hr]; rfl) hv hr₁ out
    · exact .inr ⟨0, f, r, r', high, low, rest, stop hpair, rfl, rfl, consumes_nil r, hr, hpair⟩
    · exact .inr ⟨0, _, r, r, high, low, rest, stop hpair, rfl, rfl, consumes_nil r, hr, hpair⟩
  | case2 buf short =>
    rcases buf with _ | ⟨high, _ | ⟨low, rest⟩⟩
    · exact .inl ⟨r, rfl, consumes_nil r⟩
    · refine .inl ⟨r.hold high, rfl, ?_, ?_, ?_⟩
      · intro v hv
        simp [hr] at hv
      · rw [hr]; rfl
      · simp [hr, hold]
    · exact absurd rfl (short high low rest)

/-- All that writing a buffer can do: it is consumed, or a part of it is and the pair behind is
refused, or its first pair is refused. -/
theorem write_cases (r : Receiver Device) (buf : List UInt8) :
    (∃ r', r.write buf = (.ok buf.length, r') ∧ Consumes r buf r') ∨
    (∃ n f r₁ r' high low rest, r.write buf = (.ok (n + 1), r') ∧
      buf.drop (n + 1) = high :: low :: rest ∧
      r.write (buf.take (n + 1)) = (.ok (n + 1), r₁) ∧ Consumes r (buf.take (n + 1)) r₁ ∧
      r₁.held = none ∧ r₁.receive (Symbol.pairValue high low) = (.error f, r')) ∨
    ∃ f r' v vs, r.write buf = (.error f, r') ∧ pairs (r.held.toList ++ buf) = v :: vs ∧
      r.receive v = (.error f, r') := by
  cases hr : r.held with
  | none =>
    obtain ⟨r', hp, consumed⟩ | ⟨n, f, r₁, r', high, low, rest, hp, hdrop, htake, consumed, hr₁,
      hstop⟩ := receivePairs_cases hr buf
    · refine .inl ⟨r', ?_, consumed⟩
      rw [write, hr]
      simp only [writePairs, hp]
      cases buf <;> rfl
    · cases n with
      | zero =>
        cases htake
        refine .inr (.inr ⟨f, r', Symbol.pairValue high low, pairs rest, ?_, ?_, hstop⟩)
        · rw [write, hr]
          simp only [writePairs, hp]
        · rw [show buf = high :: low :: rest from hdrop]
          rfl
      | succ n =>
        refine .inr (.inl ⟨n, f, r₁, r', high, low, rest, ?_, hdrop, ?_, consumed, hr₁, hstop⟩)
        · rw [write, hr]
          simp only [writePairs, hp]
        · rw [write, hr]
          simp only [writePairs, htake]
  | some half =>
    cases buf with
    | nil =>
      refine .inl ⟨r, ?_, consumes_nil r⟩
      rw [write, hr]
      rfl
    | cons low rest =>
      have refuse {f : Fault} {r' : Receiver Device}
          (h : r.receive (Symbol.pairValue half low) = (.error f, r')) :
          r.write (low :: rest) = (.error f, r') := by
        rw [write, hr]
        simp only [writeHolding, h]
      obtain ⟨hv, r₁, hpair, -, out⟩ | ⟨-, f, r', hpair, -⟩ | ⟨-, hpair⟩ :=
        r.receive_cases (Symbol.pairValue half low)
      · have pair {bs : List UInt8} {r'' : Receiver Device}
            (h : Consumes { r₁ with held := none } bs r'') : Consumes r (low :: bs) r'' :=
          h.pair (by rw [hr]; rfl) hv rfl out
        obtain ⟨r₂, hrest, consumed⟩ | ⟨n, f, r₂, r', high', low', rest', hrest, hdrop, htake,
          consumed, hr₂, hstop⟩ := receivePairs_cases (r := { r₁ with held := none }) rfl rest
        · refine .inl ⟨r₂, ?_, pair consumed⟩
          rw [write, hr]
          simp only [writeHolding, hpair, hrest, List.length_cons]
        · refine .inr (.inl ⟨n, f, r₂, r', high', low', rest', ?_, hdrop, ?_, pair consumed, hr₂,
            hstop⟩)
          · rw [write, hr]
            simp only [writeHolding, hpair, hrest]
          · rw [write, hr, List.take_succ_cons]
            simp only [writeHolding, hpair, htake]
      · exact .inr (.inr ⟨f, r', _, _, refuse hpair, rfl, hpair⟩)
      · exact .inr (.inr ⟨_, r, _, _, refuse hpair, rfl, hpair⟩)

/-- What a write counts is consumed. -/
theorem consumes_of_write {buf : List UInt8} {n : Nat} (h : r.write buf = (.ok n, r')) :
    n ≤ buf.length ∧ Consumes r (buf.take n) r' := by
  obtain ⟨_, hw, consumed⟩ | ⟨m, f, _, _, high, low, rest, hw, hdrop, -, consumed, -, hstop⟩ |
    ⟨_, _, _, _, hw, -⟩ := r.write_cases buf
  · rw [h] at hw
    cases hw
    rw [List.take_length]
    exact ⟨Nat.le_refl _, consumed⟩
  · rw [h] at hw
    cases hw
    have hlen := congrArg List.length hdrop
    simp only [List.length_drop, List.length_cons] at hlen
    obtain ⟨held, out⟩ := unchanged_of_receive_error hstop
    exact ⟨by omega, consumed.congr held out⟩
  · simp [h] at hw

/-- A write that counts less than the buffer stopped in front of a pair that was refused. -/
theorem stop_of_write {buf : List UInt8} {n : Nat} (h : r.write buf = (.ok n, r'))
    (hn : n < buf.length) :
    1 ≤ n ∧ r'.held = none ∧
      ∃ f r₁ high low rest, buf.drop n = high :: low :: rest ∧
        r.write (buf.take n) = (.ok n, r₁) ∧
        r₁.receive (Symbol.pairValue high low) = (.error f, r') := by
  obtain ⟨_, hw, -⟩ | ⟨m, f, r₁, _, high, low, rest, hw, hdrop, htake, -, hr₁, hstop⟩ |
    ⟨_, _, _, _, hw, -⟩ := r.write_cases buf
  · rw [h] at hw
    cases hw
    exact absurd hn (Nat.lt_irrefl _)
  · rw [h] at hw
    cases hw
    have held := (unchanged_of_receive_error hstop).1.trans hr₁
    exact ⟨Nat.le_add_left _ _, held, f, r₁, high, low, rest, hdrop, htake, hstop⟩
  · simp [h] at hw

/-- A write that fails refused the first pair. -/
theorem refusal_of_write {buf : List UInt8} {f : Fault} (h : r.write buf = (.error f, r')) :
    ∃ v vs, pairs (r.held.toList ++ buf) = v :: vs ∧ r.receive v = (.error f, r') := by
  obtain ⟨_, hw, -⟩ | ⟨_, _, _, _, _, _, _, hw, -⟩ | ⟨_, _, v, vs, hw, hpairs, hstop⟩ :=
    r.write_cases buf
  · simp [h] at hw
  · simp [h] at hw
  · rw [h] at hw
    cases hw
    exact ⟨v, vs, hpairs, hstop⟩

theorem ne_nil_of_pairs {buf : List UInt8} {v : Nat} {vs : List Nat}
    (h : pairs (r.held.toList ++ buf) = v :: vs) : buf ≠ [] := by
  rintro rfl
  cases hr : r.held <;> simp [hr] at h

/-! ## The kind of a fault -/

theorem ne_outOfRange_of_faults {d : Device} {f : Fault} (h : d.Faults f) (e : OutOfRange) :
    f ≠ .outOfRange e := by
  obtain rfl | ⟨kind, message, -, rfl⟩ := h <;> exact nofun

theorem kind_ne_invalidData_of_faults {d : Device} {f : Fault} (h : d.Faults f)
    (hplan : ∀ message, .fail .invalidData message ∉ d.plan) : f.kind ≠ .invalidData := by
  obtain rfl | ⟨kind, message, hmem, rfl⟩ := h
  · exact nofun
  · intro hkind
    cases hkind
    exact hplan message hmem

/-! ## Main statement -/

/-- **Bytes are neither lost nor passed on twice nor reordered, over any device.**  The bytes that
a write counts were decoded and passed on, or are held.  If it counts fewer than it was given, the
pair behind them is no symbol or was not taken by the device.  A failed write changed nothing, and
failed on its first pair.  Receiving one symbol passes on its byte or nothing. -/
theorem write_conserves (r : Receiver Device) (buf : List UInt8) :
    (∀ n r', r.write buf = (.ok n, r') →
      let s := r.held.toList ++ buf.take n
      n ≤ buf.length ∧
      (∀ v ∈ pairs s, v < 1024) ∧
      r'.sink.out = r.sink.out ++ (pairs s).map byteOf ∧
      r'.held = (if s.length % 2 = 1 then s.getLast? else none) ∧
      (n < buf.length →
        1 ≤ n ∧ r'.held = none ∧
        ∃ high low r₁, buf[n]? = some high ∧ buf[n + 1]? = some low ∧
          r.write (buf.take n) = (.ok n, r₁) ∧
          (1024 ≤ Symbol.pairValue high low ∨
            ∃ f, ByteSink.writeAll r₁.sink [byteOf (Symbol.pairValue high low)]
              = (.error f, r'.sink)))) ∧
    (∀ f r', r.write buf = (.error f, r') →
      buf ≠ [] ∧ r'.held = r.held ∧ r'.sink.out = r.sink.out ∧
      ∃ v vs, pairs (r.held.toList ++ buf) = v :: vs ∧
        (f = .outOfRange ⟨.symbol, v⟩ ↔ 1024 ≤ v) ∧
        (v < 1024 → ByteSink.writeAll r.sink [byteOf v] = (.error f, r'.sink)) ∧
        ((∀ message, .fail .invalidData message ∉ r.sink.plan) →
          (f.kind = .invalidData ↔ 1024 ≤ v))) ∧
    ∀ v, (r.receive v).2.held = r.held ∧
      ((r.receive v).1 = .ok () ∧ (r.receive v).2.sink.out = r.sink.out ++ [byteOf v] ∨
        (∃ f, (r.receive v).1 = .error f) ∧ (r.receive v).2.sink.out = r.sink.out) := by
  refine ⟨?_, ?_, ?_⟩
  · intro n r' hw s
    obtain ⟨hn, consumed⟩ := consumes_of_write hw
    refine ⟨hn, consumed.reads, consumed.out, consumed.held.trans (leftover_eq s), ?_⟩
    intro hlt
    obtain ⟨hpos, held, f, r₁, high, low, rest, hdrop, htake, hstop⟩ := stop_of_write hw hlt
    have hhigh : buf[n]? = some high := by
      rw [← Nat.add_zero n, ← List.getElem?_drop, hdrop]; rfl
    have hlow : buf[n + 1]? = some low := by
      rw [← List.getElem?_drop, hdrop]; rfl
    refine ⟨hpos, held, high, low, r₁, hhigh, hlow, htake, ?_⟩
    obtain ⟨-, hsink, -⟩ | ⟨hv, -⟩ := cause_of_receive_error hstop
    · exact .inr ⟨f, hsink⟩
    · exact .inl hv
  · intro f r' hw
    obtain ⟨v, vs, hpairs, hstop⟩ := refusal_of_write hw
    obtain ⟨held, out⟩ := unchanged_of_receive_error hstop
    refine ⟨ne_nil_of_pairs hpairs, held, out, v, vs, hpairs, ?_⟩
    obtain ⟨hv, hsink, hf⟩ | ⟨hv, rfl, -⟩ := cause_of_receive_error hstop
    · have small : ¬ 1024 ≤ v := Nat.not_le_of_lt hv
      exact ⟨iff_of_false (ne_outOfRange_of_faults hf _) small, fun _ => hsink,
        fun hplan => iff_of_false (kind_ne_invalidData_of_faults hf hplan) small⟩
    · exact ⟨iff_of_true rfl hv, fun hlt => absurd hv (Nat.not_le_of_lt hlt),
        fun _ => iff_of_true rfl hv⟩
  · intro v
    obtain ⟨-, r', hr, held, out⟩ | ⟨-, f, r', hr, held, out, -⟩ | ⟨-, hr⟩ := r.receive_cases v
    · rw [hr]
      exact ⟨held, .inl ⟨rfl, out⟩⟩
    · rw [hr]
      exact ⟨held, .inr ⟨⟨f, rfl⟩, out⟩⟩
    · rw [hr]
      exact ⟨rfl, .inr ⟨⟨_, rfl⟩, rfl⟩⟩

/-- A pair that begins with the held byte passes and the next one meets a broken device; then a pair
that is no symbol. -/
theorem write_conserves_refused :
    (let d : Device := { plan := [.take 1, .fail .brokenPipe "sink broke"] }
     let r : Receiver Device := { held := some 0x01, sink := d }
     let w := r.write [0x00, 0x02, 0x00, 0x01]
     w = (.ok 1, w.2) ∧ w.2.sink.out = [0x00] ∧ w.2.held = none) ∧
    (let r : Receiver Device := { held := some 0x04, sink := {} }
     let w := r.write [0x00, 0x01]
     w = (.error (.outOfRange ⟨.symbol, 1024⟩), w.2) ∧
     (∀ message, .fail .invalidData message ∉ r.sink.plan) ∧
     w.2.held = some 0x04 ∧ w.2.sink.out = [] ∧
     ∃ v vs, pairs [0x04, 0x00, 0x01] = v :: vs ∧ 1024 ≤ v) := by
  constructor
  · intro d r w
    have hw : w = (.ok 1, w.2) := Prod.ext (by decide +kernel) rfl
    obtain ⟨-, -, out, -, short⟩ := (write_conserves r [0x00, 0x02, 0x00, 0x01]).1 1 w.2 hw
    have held := (short (by decide)).2.1
    exact ⟨hw, out.trans (by decide +kernel), held⟩
  · intro r w
    have hw : w = (.error (.outOfRange ⟨.symbol, 1024⟩), w.2) := Prod.ext (by decide +kernel) rfl
    have hplan : ∀ message, .fail .invalidData message ∉ r.sink.plan :=
      fun _ => List.not_mem_nil
    obtain ⟨-, held, out, v, vs, hpairs, -, -, kind⟩ :=
      (write_conserves r [0x00, 0x01]).2.1 _ w.2 hw
    exact ⟨hw, hplan, held, out, v, vs, hpairs, (kind hplan).mp rfl⟩

end Receiver

end LineCode.Stream
