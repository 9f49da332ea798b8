import LineCode.Proofs.Stream.Consuming

/-!
# Chunks of any stream of bytes

Over an obliging device a receiver stops for one reason only: a pair that is no symbol.  The pairs
before the first such pair are passed on, and the receiver fails with it, wherever the chunks were
cut.  The cut may go through that pair; or the pair stands behind others in its chunk, and then a
first write counts those and only the next one fails.
-/

namespace LineCode.Stream

/-! ## The first value that is no symbol -/

/-- The values before the first that is no symbol. -/
def legible (vs : List Nat) : List Nat :=
  vs.takeWhile (· < 1024)

/-- The first value that is no symbol. -/
def illegible? (vs : List Nat) : Option Nat :=
  vs.find? (1024 ≤ ·)

theorem legible_append {vs : List Nat} (h : ∀ v ∈ vs, v < 1024) (ws : List Nat) :
    legible (vs ++ ws) = vs ++ legible ws :=
  List.takeWhile_append_of_pos fun v hv => by simpa using h v hv

theorem illegible?_append {vs : List Nat} (h : ∀ v ∈ vs, v < 1024) (ws : List Nat) :
    illegible? (vs ++ ws) = illegible? ws := by
  have none_bad : vs.find? (1024 ≤ ·) = none := by
    simp only [List.find?_eq_none, decide_eq_true_eq, Nat.not_le]
    exact h
  rw [illegible?, List.find?_append, none_bad, Option.none_or, illegible?]

theorem legible_eq_self {vs : List Nat} (h : ∀ v ∈ vs, v < 1024) : legible vs = vs := by
  have := legible_append h []
  rwa [List.append_nil, show legible [] = [] from rfl, List.append_nil] at this

theorem illegible?_eq_none_iff {vs : List Nat} : illegible? vs = none ↔ ∀ v ∈ vs, v < 1024 := by
  simp [illegible?]

theorem legible_cons_of_le {v : Nat} (hv : 1024 ≤ v) (vs : List Nat) : legible (v :: vs) = [] := by
  rw [legible, List.takeWhile_cons, if_neg (by simpa using hv)]

theorem illegible?_cons_of_le {v : Nat} (hv : 1024 ≤ v) (vs : List Nat) :
    illegible? (v :: vs) = some v := by
  rw [illegible?, List.find?_cons_of_pos (by simpa using hv)]

/-- What stands behind the first value that is no symbol does not matter. -/
theorem illegible?_append_of_some {vs : List Nat} {v : Nat} (h : illegible? vs = some v)
    (ws : List Nat) : illegible? (vs ++ ws) = some v := by
  rw [illegible?] at h
  rw [illegible?, List.find?_append, h, Option.some_or]

theorem legible_append_of_some {vs : List Nat} {v : Nat} (h : illegible? vs = some v)
    (ws : List Nat) : legible (vs ++ ws) = legible vs := by
  induction vs with
  | nil => simp [illegible?] at h
  | cons w vs ih =>
    by_cases hw : w < 1024
    · have rest : illegible? vs = some v := by
        rwa [illegible?, List.find?_cons_of_neg (by simpa using hw)] at h
      have := ih rest
      rw [legible, legible] at this
      rw [legible, legible, List.cons_append, List.takeWhile_cons_of_pos (by simpa using hw),
        List.takeWhile_cons_of_pos (by simpa using hw), this]
    · have hle : 1024 ≤ w := Nat.le_of_not_lt hw
      rw [List.cons_append, legible_cons_of_le hle, legible_cons_of_le hle]

namespace Receiver

/-! ## Stopping -/

/-- Takes chunks one after another until one fails. -/
def takeChunks {σ : Type} [ByteSink σ] (r : Receiver σ) :
    List (List UInt8) → Except Fault Unit × Receiver σ
  | [] => (.ok (), r)
  | chunk :: chunks =>
    match ByteSink.writeAll r chunk with
    | (.ok (), r) => r.takeChunks chunks
    | (.error f, r) => (.error f, r)

/-- From `r` to `r'` the given bytes were taken up to the first pair that is no symbol. -/
structure Stops (r : Receiver Device) (bs : List UInt8) (v : Nat) (r' : Receiver Device) :
    Prop where
  value : illegible? (pairs (r.held.toList ++ bs)) = some v
  out : r'.sink.out = r.sink.out ++ (legible (pairs (r.held.toList ++ bs))).map byteOf

variable {r r' r'' : Receiver Device}

theorem Takes.pairs_append {as : List UInt8} (h : Takes r as r') (bs : List UInt8) :
    pairs (r.held.toList ++ (as ++ bs))
      = pairs (r.held.toList ++ as) ++ pairs (r'.held.toList ++ bs) := by
  rw [← List.append_assoc, Stream.pairs_append (r.held.toList ++ as), ← h.held]

theorem Reads.append {as bs : List UInt8} (h : Reads r as) (taken : Takes r as r')
    (h' : Reads r' bs) : Reads r (as ++ bs) := by
  intro v hv
  rw [taken.pairs_append] at hv
  rcases List.mem_append.mp hv with hv | hv
  · exact h v hv
  · exact h' v hv

theorem Stops.append {as : List UInt8} {v : Nat} (h : Stops r as v r') (bs : List UInt8) :
    Stops r (as ++ bs) v r' := by
  have split : pairs (r.held.toList ++ (as ++ bs)) = pairs (r.held.toList ++ as) ++
      pairs ((leftover (r.held.toList ++ as)).toList ++ bs) := by
    rw [← List.append_assoc, Stream.pairs_append (r.held.toList ++ as)]
  refine ⟨?_, ?_⟩
  · rw [split]
    exact illegible?_append_of_some h.value _
  · rw [split, legible_append_of_some h.value]
    exact h.out

theorem Stops.after {as bs : List UInt8} {v : Nat} (reads : Reads r as) (taken : Takes r as r')
    (h : Stops r' bs v r'') : Stops r (as ++ bs) v r'' := by
  refine ⟨?_, ?_⟩
  · rw [taken.pairs_append, illegible?_append reads]
    exact h.value
  · rw [taken.pairs_append, legible_append reads, List.map_append, h.out, taken.out,
      List.append_assoc]

/-! ## Calls over an obliging device -/

/-- An obliging device takes every byte, so that a value is refused only if it is no symbol. -/
theorem receive_error_of_obliging (h : r.sink.Obliging) {v : Nat} {f : Fault}
    (hstop : r.receive v = (.error f, r')) :
    1024 ≤ v ∧ f = .outOfRange ⟨.symbol, v⟩ ∧ r' = r := by
  obtain ⟨-, hsink, -⟩ | cause := cause_of_receive_error hstop
  · obtain ⟨d, hw, -⟩ := h.writeAll [byteOf v]
    simp [hw] at hsink
  · exact cause

theorem stops_of_refusal (h : r.sink.Obliging) {buf : List UInt8} {f : Fault}
    (hw : r.write buf = (.error f, r')) :
    ∃ v : Nat, f = .outOfRange ⟨.symbol, v⟩ ∧ Stops r buf v r' ∧
      ByteSink.writeAll r buf = (.error f, r') := by
  obtain ⟨v, vs, hpairs, hstop⟩ := refusal_of_write hw
  obtain ⟨hv, rfl, rfl⟩ := receive_error_of_obliging h hstop
  refine ⟨v, rfl, ⟨?_, ?_⟩, ByteSink.writeAll_of_error (ne_nil_of_pairs hpairs) hw nofun⟩
  · rw [hpairs, illegible?_cons_of_le hv]
  · rw [hpairs, legible_cons_of_le hv, List.map_nil, List.append_nil]

/-- **All that writing to the end can do over an obliging device.** -/
theorem writeAll_cases (h : r.sink.Obliging) (buf : List UInt8) :
    (∃ r', ByteSink.writeAll r buf = (.ok (), r') ∧ Reads r buf ∧ Takes r buf r') ∨
    ∃ (v : Nat) (r' : Receiver Device),
      ByteSink.writeAll r buf = (.error (.outOfRange ⟨.symbol, v⟩), r') ∧ Stops r buf v r' := by
  rcases hw : r.write buf with ⟨f | n, r'⟩
  · obtain ⟨v, rfl, stops, hall⟩ := stops_of_refusal h hw
    exact .inr ⟨v, r', hall, stops⟩
  · obtain ⟨hn, consumed⟩ := consumes_of_write hw
    by_cases hlt : n < buf.length
    · -- the first write counts `n` bytes and hides the fault, on which the second one fails
      obtain ⟨hpos, held, f, r₁, high, low, rest, hdrop, htake, hstop⟩ := stop_of_write hw hlt
      obtain ⟨r₂, htake', taken⟩ := write_of_obliging h consumed.reads
      obtain rfl : r₁ = r₂ := congrArg Prod.snd (htake.symm.trans htake')
      obtain ⟨hv, rfl, rfl⟩ := receive_error_of_obliging taken.obliging hstop
      have again : r'.write (buf.drop n)
          = (.error (.outOfRange ⟨.symbol, Symbol.pairValue high low⟩), r') := by
        rw [hdrop, write, held]
        simp only [writePairs, receivePairs, hstop]
      obtain ⟨v, hf, stops, hall⟩ := stops_of_refusal taken.obliging again
      have through : buf.take n ++ buf.drop n = buf := List.take_append_drop n buf
      obtain ⟨m, rfl⟩ := Nat.exists_eq_add_one_of_ne_zero (Nat.ne_of_gt hpos)
      have nonempty : buf ≠ [] := by rintro rfl; simp at hlt
      refine .inr ⟨v, r', ?_, ?_⟩
      · rw [ByteSink.writeAll_of_ok nonempty hw, hall, hf]
      · have := Stops.after consumed.reads taken stops
        rwa [through] at this
    · have whole : buf.take n = buf := List.take_of_length_le (Nat.le_of_not_lt hlt)
      have reads : Reads r buf := whole ▸ consumed.reads
      obtain ⟨r₁, hall, taken⟩ := writeAll_of_obliging h reads
      exact .inl ⟨r₁, hall, reads, taken⟩

/-- **Chunks are taken as their concatenation**, up to the first pair that is no symbol. -/
theorem takeChunks_cases (h : r.sink.Obliging) (chunks : List (List UInt8)) :
    (∃ r', r.takeChunks chunks = (.ok (), r') ∧ Reads r chunks.flatten ∧
      Takes r chunks.flatten r') ∨
    ∃ (v : Nat) (r' : Receiver Device),
      r.takeChunks chunks = (.error (.outOfRange ⟨.symbol, v⟩), r') ∧
      Stops r chunks.flatten v r' := by
  induction chunks generalizing r with
  | nil => exact .inl ⟨r, rfl, (consumes_nil r).reads, takes_nil h⟩
  | cons chunk chunks ih =>
    rw [List.flatten_cons]
    obtain ⟨r₁, hw, reads, taken⟩ | ⟨v, r₁, hw, stops⟩ := writeAll_cases h chunk
    · simp only [takeChunks, hw]
      obtain ⟨r₂, hrest, reads', taken'⟩ | ⟨v, r₂, hrest, stops⟩ := ih taken.obliging
      · exact .inl ⟨r₂, hrest, reads.append taken reads', taken.trans taken'⟩
      · exact .inr ⟨v, r₂, hrest, Stops.after reads taken stops⟩
    · simp only [takeChunks, hw]
      exact .inr ⟨v, r₁, rfl, stops.append _⟩

/-! ## Main statement -/

/-- What a stream of bytes does to a fresh receiver over the device `d`, told without its chunks. -/
structure Delivers (d : Device) (bs : List UInt8) (x : Except Fault Unit × Receiver Device) :
    Prop where
  /-- The pairs before the first that is no symbol are passed on. -/
  out : x.2.sink.out = d.out ++ (legible (pairs bs)).map byteOf
  /-- That pair is the fault. -/
  fault : ∀ v, illegible? (pairs bs) = some v →
    ∃ f, x.1 = .error f ∧ f = .outOfRange ⟨.symbol, v⟩ ∧ f.kind = .invalidData ∧
      f.message = "symbol value " ++ toString v ++ " is out of range 0..=1023"
  /-- There is no other. -/
  ok : illegible? (pairs bs) = none → x.1 = .ok ()
  /-- Closing flushes after whole pairs. -/
  close_even : illegible? (pairs bs) = none → bs.length % 2 = 0 →
    ∃ r, x.2.close = (.ok (), r) ∧ r.sink.flushes = x.2.sink.flushes + 1
  /-- Closing fails on half a pair, and does nothing. -/
  close_odd : illegible? (pairs bs) = none → bs.length % 2 = 1 →
    ∃ last f, bs.getLast? = some last ∧ x.2.close = (.error f, x.2) ∧ f = .danglingHalf last ∧
      f.kind = .unexpectedEnd ∧
      f.message = "dangling half symbol 0x" ++ Numeral.hexByte last

theorem message_outOfRange_symbol (v : Nat) :
    (Fault.outOfRange ⟨.symbol, v⟩).message
      = "symbol value " ++ toString v ++ " is out of range 0..=1023" := by
  have front : "symbol" ++ " value " = "symbol value " := by decide +kernel
  have value : toString (v : Int) = toString v := rfl
  have limit : toString Quantity.symbol.limit = "1023" := by decide +kernel
  have back : " is out of range 0..=" ++ "1023" = " is out of range 0..=1023" := by decide +kernel
  show "symbol" ++ " value " ++ toString (v : Int) ++ " is out of range 0..="
    ++ toString Quantity.symbol.limit = _
  rw [front, value, limit, String.append_assoc, back]

theorem close_of_held_none (h : r.sink.Obliging) (hr : r.held = none) :
    ∃ r', r.close = (.ok (), r') ∧ r'.sink.flushes = r.sink.flushes + 1 := by
  obtain ⟨held, ⟨plan, flushFault, out, writes, flushes⟩, journal⟩ := r
  obtain rfl : flushFault = none := h.flush
  obtain rfl : held = none := hr
  exact ⟨_, rfl, rfl⟩

theorem delivers_of_obliging {d : Device} (hd : d.Obliging) (chunks : List (List UInt8)) :
    Delivers d chunks.flatten (takeChunks { sink := d } chunks) := by
  obtain ⟨r, hr, reads, taken⟩ | ⟨v, r, hr, stops⟩ :=
    takeChunks_cases (r := { sink := d }) hd chunks
  · have good : ∀ v ∈ pairs chunks.flatten, v < 1024 := reads
    have unbroken : illegible? (pairs chunks.flatten) = none := illegible?_eq_none_iff.mpr good
    have held : r.held = leftover chunks.flatten := taken.held
    rw [leftover_eq] at held
    rw [hr]
    refine ⟨?_, ?_, fun _ => rfl, ?_, ?_⟩
    · rw [legible_eq_self good]
      exact taken.out
    · intro v hv
      rw [unbroken] at hv
      cases hv
    · intro _ even
      rw [if_neg (by omega)] at held
      exact close_of_held_none taken.obliging held
    · intro _ odd
      have nonempty : chunks.flatten ≠ [] := by
        intro hnil
        rw [hnil] at odd
        cases odd
      have last := List.getLast?_eq_some_getLast nonempty
      rw [if_pos odd, last] at held
      refine ⟨_, _, last, ?_, rfl, rfl, rfl⟩
      simp only [close, held]
  · have broken : illegible? (pairs chunks.flatten) = some v := stops.value
    rw [hr]
    refine ⟨stops.out, ?_, ?_, ?_, ?_⟩
    · intro w hw
      rw [broken] at hw
      cases hw
      exact ⟨_, rfl, rfl, rfl, message_outOfRange_symbol v⟩
    all_goals
      intro unbroken
      rw [broken] at unbroken
      cases unbroken

/-- **What is delivered does not depend on the chunks**, for any bytes over obliging devices: both
runs pass on the pairs before the first that is no symbol, fail with it or both succeed, and close
alike. -/
theorem takeChunks_irrelevant {d d' : Device} (hd : d.Obliging) (hd' : d'.Obliging)
    {bs : List UInt8} {chunks chunks' : List (List UInt8)} (h : chunks.flatten = bs)
    (h' : chunks'.flatten = bs) :
    let x := takeChunks { sink := d } chunks
    let x' := takeChunks { sink := d' } chunks'
    Delivers d bs x ∧ Delivers d' bs x' ∧ x.1 = x'.1 := by
  intro x x'
  have delivers : Delivers d bs x := h ▸ delivers_of_obliging hd chunks
  have delivers' : Delivers d' bs x' := h' ▸ delivers_of_obliging hd' chunks'
  refine ⟨delivers, delivers', ?_⟩
  cases hbad : illegible? (pairs bs) with
  | none => rw [delivers.ok hbad, delivers'.ok hbad]
  | some v =>
    obtain ⟨f, hx, rfl, -⟩ := delivers.fault v hbad
    obtain ⟨f', hx', rfl, -⟩ := delivers'.fault v hbad
    rw [hx, hx']

/-- A pair that is no symbol, whole behind another one and cut in two. -/
theorem takeChunks_irrelevant_cut :
    let d : Device := { plan := [.fail .interrupted "try again", .take 7] }
    let d' : Device := {}
    let chunks : List (List UInt8) := [[0x01, 0x00, 0x04, 0x00, 0x02]]
    let chunks' : List (List UInt8) := [[0x01], [], [0x00, 0x04], [0x00, 0x02]]
    let x := takeChunks { sink := d } chunks
    let x' := takeChunks { sink := d' } chunks'
    (d.Obliging ∧ d'.Obliging ∧ chunks.flatten = chunks'.flatten) ∧
    x.1 = .error (.outOfRange ⟨.symbol, 1024⟩) ∧ x'.1 = .error (.outOfRange ⟨.symbol, 1024⟩) ∧
    x.2.sink.out = [0x00] ∧ x'.2.sink.out = [0x00] := by
  intro d d' chunks chunks' x x'
  have hd : d.Obliging := ⟨by decide, rfl⟩
  have hd' : d'.Obliging := ⟨by decide, rfl⟩
  have same : chunks'.flatten = chunks.flatten := by decide
  obtain ⟨whole, cut, alike⟩ := takeChunks_irrelevant hd hd' (Eq.refl chunks.flatten) same
  obtain ⟨f, hf, rfl, -⟩ := whole.fault 1024 (by decide)
  exact ⟨⟨hd, hd', same.symm⟩, hf, alike.symm.trans hf, whole.out.trans (by decide),
    cut.out.trans (by decide)⟩

end Receiver

end LineCode.Stream
