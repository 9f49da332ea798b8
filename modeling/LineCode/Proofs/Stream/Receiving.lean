import LineCode.Proofs.Stream.Delivery
import LineCode.Proofs.Stream.Framing
import LineCode.Stream.Receiver

/-!
# Receiving onto an obliging device

What a receiver has done with the bytes it took is told by their framing: each complete pair was
passed on as a byte and the byte that is left over is held.  Over an obliging device it takes every
buffer whose pairs are symbols, however the bytes are spread over the buffers.
-/

namespace LineCode.Stream

/-- The byte that a symbol with the given value carries. -/
def byteOf (value : Nat) : UInt8 :=
  (Symbol.ofBits value).decode

namespace Receiver

/-- The receiver after a list of calls. -/
def after {σ : Type} [ByteSink σ] (r : Receiver σ) (steps : List Step) : Receiver σ :=
  steps.foldl (fun r step => (r.perform step).2) r

theorem run_append {σ : Type} [ByteSink σ] (r : Receiver σ) (steps more : List Step) :
    r.run (steps ++ more) = r.run steps ++ (r.after steps).run more := by
  induction steps generalizing r with
  | nil => rfl
  | cons step steps ih => simp only [List.cons_append, run, ih, after, List.foldl_cons]

theorem after_append {σ : Type} [ByteSink σ] (r : Receiver σ) (steps more : List Step) :
    r.after (steps ++ more) = (r.after steps).after more :=
  List.foldl_append

/-- From `r` to `r'` exactly the given bytes were taken. -/
structure Takes (r : Receiver Device) (bs : List UInt8) (r' : Receiver Device) : Prop where
  held : r'.held = leftover (r.held.toList ++ bs)
  out : r'.sink.out = r.sink.out ++ (pairs (r.held.toList ++ bs)).map byteOf
  obliging : r'.sink.Obliging

/-- The pairs of the bytes, after the one that is held, are symbols. -/
def Reads (r : Receiver Device) (bs : List UInt8) : Prop :=
  ∀ v ∈ pairs (r.held.toList ++ bs), v < 1024

variable {r r' r'' : Receiver Device}

theorem takes_nil (h : r.sink.Obliging) : Takes r [] r := by
  refine ⟨?_, ?_, h⟩ <;> cases r.held <;> simp

theorem Takes.trans {as bs : List UInt8} (h : Takes r as r') (h' : Takes r' bs r'') :
    Takes r (as ++ bs) r'' := by
  refine ⟨?_, ?_, h'.obliging⟩
  · rw [h'.held, h.held, ← List.append_assoc, leftover_append (r.held.toList ++ as)]
  · rw [h'.out, h.out, h.held, ← List.append_assoc, pairs_append (r.held.toList ++ as),
      List.map_append, List.append_assoc]

theorem Reads.left {as bs : List UInt8} (h : Reads r (as ++ bs)) : Reads r as := by
  intro v hv
  refine h v ?_
  rw [← List.append_assoc, pairs_append]
  exact List.mem_append_left _ hv

theorem Reads.right {as bs : List UInt8} (h : Reads r (as ++ bs)) (taken : Takes r as r') :
    Reads r' bs := by
  intro v hv
  refine h v ?_
  rw [taken.held] at hv
  rw [← List.append_assoc, pairs_append]
  exact List.mem_append_right _ hv

/-! ## Calls -/

theorem receive_of_obliging (h : r.sink.Obliging) {value : Nat} (hv : value < 1024) :
    ∃ r', r.receive value = (.ok (), r') ∧ r'.sink.Obliging ∧ r'.held = r.held ∧
      r'.sink.out = r.sink.out ++ [byteOf value] := by
  obtain ⟨d, hw, hd, hout⟩ := h.writeAll [(Symbol.ofBits value).decode]
  refine ⟨⟨r.held, d, r.journal ++ (Symbol.ofBits value).decodeEvents⟩, ?_, hd, rfl, hout⟩
  rw [receive, Symbol.ofInt_of_lt hv]
  simp only [hw]

theorem receivePairs_of_obliging (h : r.sink.Obliging) (hr : r.held = none) {buf : List UInt8}
    (reads : Reads r buf) :
    ∃ r', r.receivePairs buf = (buf.length, none, r') ∧ Takes r buf r' := by
  -- two bytes at a time; the last one alone is held
  induction buf using pairs.induct generalizing r with
  | case1 high low rest ih =>
    rw [Reads, hr] at reads
    obtain ⟨r₁, hv, hd, held, hout⟩ :=
      receive_of_obliging h (reads (Symbol.pairValue high low) List.mem_cons_self)
    have hr₁ : r₁.held = none := held.trans hr
    obtain ⟨r₂, hrest, taken⟩ := ih hd hr₁ fun v hv =>
      reads v (List.mem_cons_of_mem _ (by rwa [hr₁] at hv))
    refine ⟨r₂, by simp only [receivePairs, hv, hrest, List.length_cons], ?_, ?_, taken.obliging⟩
    · rw [taken.held, hr₁, hr]; rfl
    · rw [taken.out, hout, hr₁, hr]; simp
  | case2 buf short =>
    match buf, short with
    | [], _ => exact ⟨r, rfl, takes_nil h⟩
    | [half], _ => exact ⟨r.hold half, rfl, by rw [hr]; rfl, by rw [hr]; simp [hold], h⟩
    | high :: low :: rest, short => exact absurd rfl (short high low rest)

theorem write_of_obliging (h : r.sink.Obliging) {buf : List UInt8} (reads : Reads r buf) :
    ∃ r', r.write buf = (.ok buf.length, r') ∧ Takes r buf r' := by
  cases hr : r.held with
  | none =>
    obtain ⟨r', hp, taken⟩ := receivePairs_of_obliging h hr reads
    refine ⟨r', ?_, taken⟩
    rw [write, hr]
    simp only [writePairs, hp]
    cases buf <;> rfl
  | some high =>
    cases buf with
    | nil => exact ⟨r, by rw [write, hr]; rfl, takes_nil h⟩
    | cons low rest =>
      rw [Reads, hr] at reads
      obtain ⟨r₁, hv, hd, held, hout⟩ :=
        receive_of_obliging h (reads (Symbol.pairValue high low) List.mem_cons_self)
      obtain ⟨r₂, hrest, taken⟩ := receivePairs_of_obliging (r := { r₁ with held := none }) hd rfl
        fun v hv => reads v (List.mem_cons_of_mem _ hv)
      refine ⟨r₂, ?_, ?_, ?_, taken.obliging⟩
      · rw [write, hr]
        simp only [writeHolding, hv, hrest, List.length_cons]
      · rw [taken.held, hr]; rfl
      · rw [taken.out, hr]; simp [hout]

theorem writeAll_of_obliging (h : r.sink.Obliging) {buf : List UInt8} (reads : Reads r buf) :
    ∃ r', ByteSink.writeAll r buf = (.ok (), r') ∧ Takes r buf r' := by
  cases buf with
  | nil => exact ⟨r, ByteSink.writeAll_nil r, takes_nil h⟩
  | cons b bs =>
    obtain ⟨r', hw, taken⟩ := write_of_obliging h reads
    refine ⟨r', ?_, taken⟩
    rw [ByteSink.writeAll_of_ok (by simp) (show ByteSink.write r (b :: bs) = _ from hw)]
    simp

theorem close_of_obliging (h : r.sink.Obliging) (hr : r.held = none) :
    ∃ r', r.close = (.ok (), r') ∧ Takes r [] r' := by
  obtain ⟨d, hf, hd, hout⟩ := h.flush_ok
  refine ⟨{ r with sink := d }, ?_, ?_, ?_, hd⟩
  · simp only [close, hr, flush, hf]
  · rw [hr]; rfl
  · simp [hout, hr]

/-! ## Runs -/

/-- **Chunks are taken as their concatenation**, wherever the cuts are. -/
theorem run_writeAll_of_obliging (h : r.sink.Obliging) {chunks : List (List UInt8)}
    (reads : Reads r chunks.flatten) :
    (∀ x ∈ r.run (chunks.map .writeAll), x.1 = .ok none) ∧
      Takes r chunks.flatten (r.after (chunks.map .writeAll)) := by
  induction chunks generalizing r with
  | nil => exact ⟨by simp [run], takes_nil h⟩
  | cons chunk chunks ih =>
    rw [List.flatten_cons] at reads
    obtain ⟨r', hw, first⟩ := writeAll_of_obliging h reads.left
    have step : r.perform (.writeAll chunk) = (.ok none, r') := by rw [perform, hw]; rfl
    obtain ⟨answers, rest⟩ := ih first.obliging (reads.right first)
    rw [List.map_cons, List.flatten_cons, after, List.foldl_cons, run, step]
    refine ⟨fun x hx => ?_, first.trans rest⟩
    rcases List.mem_cons.mp hx with rfl | hx
    · rfl
    · exact answers x hx

end Receiver

end LineCode.Stream
