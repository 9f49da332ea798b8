import Mathlib.Data.List.Sort
import LineCode.Capture.Playback
import LineCode.Proofs.Recovery
import LineCode.Proofs.Requests

/-!
# What playing a capture back reports

A capture that holds a sample out of range is refused, for the first of these samples.  Any other is
compared with the answers that a fresh encoder gives to its samples one after another: the rows
where the recorded symbol differs are the deviations.  That a data symbol decodes to its byte is
checked as well, and never fails.
-/

namespace LineCode.Capture

namespace Sample

/-- What is asked of the encoder for a sample. -/
def request (s : Sample) : Encoder.Request :=
  .inputs s.data.toInt s.dataPeriod s.control.toInt

/-- Why a sample is refused, if it is.  The data is looked at first, and both numbers in either
period. -/
def refusal? (s : Sample) : Option OutOfRange :=
  if ¬ (0 ≤ s.data.toInt ∧ s.data.toInt ≤ 255) then some ⟨.data, s.data.toInt⟩
  else if ¬ (0 ≤ s.control.toInt ∧ s.control.toInt ≤ 3) then some ⟨.control, s.control.toInt⟩
  else none

/-! ## One sample -/

theorem refusal?_eq_some_iff {s : Sample} {err : OutOfRange} :
    s.refusal? = some err ↔ s.request.RefusedFor err := by
  show _ ↔ _ ∨ _
  unfold refusal?
  split
  · rename_i no
    simp [no, eq_comm]
  · rename_i data
    rw [Classical.not_not] at data
    split
    · rename_i no
      simp [data, no, eq_comm]
    · rename_i control
      rw [Classical.not_not] at control
      simp [data, control]

theorem toPayload_of_refusal {s : Sample} {err : OutOfRange} (h : s.refusal? = some err) :
    s.toPayload = .error err := by
  obtain ⟨err', refused, only⟩ | ⟨accepted, -⟩ := s.request.toPayload_cases
  · obtain rfl := (only err).mp (refusal?_eq_some_iff.mp h)
    exact refused
  · exact absurd (refusal?_eq_some_iff.mp h) (Encoder.Request.inRange_iff.mp accepted err)

/-- A sample in range asks for a payload, in a data period for the byte with the value of its
data. -/
theorem toPayload_of_refusal_none {s : Sample} (h : s.refusal? = none) :
    ∃ p, s.toPayload = .ok p ∧
      (s.dataPeriod = true → ∃ b : UInt8, p = .data b ∧ (b.toNat : Int) = s.data.toInt) := by
  obtain ⟨err, -, only⟩ | ⟨-, p, asked, asks⟩ := s.request.toPayload_cases
  · have refused : s.refusal? = some err := refusal?_eq_some_iff.mpr ((only err).mpr rfl)
    rw [h] at refused
    contradiction
  · refine ⟨p, asked, fun period => ?_⟩
    unfold request at asks
    rw [period] at asks
    exact asks

/-- What a symbol decodes to is no deviation where the symbol was sent for the sample. -/
theorem deviations_encode {s : Sample} {p : Payload} (h : s.toPayload = .ok p)
    (accepted : s.refusal? = none) (row : Nat) (e : Encoder) :
    s.deviations row (e.encode p).1 (e.encode p).2
      = (s.symbolDeviation? row (e.encode p).1 (e.encode p).2).toList := by
  obtain ⟨q, hq, hbyte⟩ := toPayload_of_refusal_none accepted
  obtain rfl : p = q := by simpa [h] using hq
  have decodes : s.decodedDeviation? row (e.encode p).1 = none := by
    rw [decodedDeviation?, if_neg]
    rintro ⟨period, differs⟩
    obtain ⟨b, rfl, hb⟩ := hbyte period
    exact differs (by rw [Encoder.encode_data, Encoder.decode_encodeData, hb])
  rw [deviations, decodes, Option.toList_none, List.append_nil]

theorem symbolDeviation?_eq_some_iff {s : Sample} {row : Nat} {symbol : Symbol} {after : Encoder}
    {d : Deviation} :
    s.symbolDeviation? row symbol after = some d ↔
      symbol.toNat ≠ s.expected.toNat ∧ d = ⟨row, s, .symbol symbol after.disparity⟩ := by
  rw [symbolDeviation?]
  split <;> simp_all [eq_comm]

end Sample

/-! ## Rows from some encoder on -/

/-- The deviation that a row of samples has to report, given the encoder before the first. -/
def IsDeviation (e : Encoder) (samples : List Sample) (i : Nat) (row : Nat) (d : Deviation) : Prop :=
  ∃ s symbol after, samples[i]? = some s ∧
    (e.answers (samples.map Sample.request))[i]? = some (.ok symbol, after) ∧
    symbol.toNat ≠ s.expected.toNat ∧ d = ⟨row, s, .symbol symbol after.disparity⟩

variable {e : Encoder} {samples : List Sample} {row : Nat}

theorem answers_cons {s : Sample} {p : Payload} (h : s.toPayload = .ok p) (e : Encoder)
    (ss : List Sample) :
    e.answers ((s :: ss).map Sample.request)
      = (.ok (e.encode p).1, (e.encode p).2) :: (e.encode p).2.answers (ss.map Sample.request) := by
  have answer : e.answer s.request = (.ok (e.encode p).1, (e.encode p).2) := by
    have asked : s.request.toPayload = .ok p := h
    rw [Encoder.answer, asked]
  rw [List.map_cons, Encoder.answers, answer]

/-- The first row deviates if the symbol for its sample does. -/
theorem isDeviation_zero_iff {s : Sample} {p : Payload} (h : s.toPayload = .ok p)
    (ss : List Sample) {d : Deviation} :
    IsDeviation e (s :: ss) 0 row d ↔
      s.symbolDeviation? row (e.encode p).1 (e.encode p).2 = some d := by
  rw [Sample.symbolDeviation?_eq_some_iff, IsDeviation, answers_cons h]
  simp

/-- The later rows are those of the encoder behind the first sample. -/
theorem isDeviation_succ_iff {s : Sample} {p : Payload} (h : s.toPayload = .ok p)
    (ss : List Sample) {i : Nat} {d : Deviation} :
    IsDeviation e (s :: ss) (i + 1) row d ↔ IsDeviation (e.encode p).2 ss i row d := by
  rw [IsDeviation, IsDeviation, answers_cons h]
  simp

theorem deviationsFrom_cons {s : Sample} {p : Payload} (h : s.toPayload = .ok p) (e : Encoder)
    (row : Nat) (ss : List Sample) :
    deviationsFrom e row (s :: ss) = (deviationsFrom (e.encode p).2 (row + 1) ss).map
      (s.deviations row (e.encode p).1 (e.encode p).2 ++ ·) := by
  rw [deviationsFrom, h]
  change (deviationsFrom (e.encode p).2 (row + 1) ss).bind (fun ds => .ok (_ ++ ds)) = _
  cases deviationsFrom (e.encode p).2 (row + 1) ss <;> rfl

theorem deviationsFrom_of_refusal {err : OutOfRange}
    (h : samples.findSome? Sample.refusal? = some err) :
    deviationsFrom e row samples = .error err := by
  induction samples generalizing e row with
  | nil => contradiction
  | cons s ss ih =>
    rw [List.findSome?_cons] at h
    cases hs : s.refusal? with
    | some refused =>
      obtain rfl : refused = err := by simpa [hs] using h
      rw [deviationsFrom, Sample.toPayload_of_refusal hs]
      rfl
    | none =>
      obtain ⟨p, hp, -⟩ := Sample.toPayload_of_refusal_none hs
      rw [deviationsFrom_cons hp, ih (by simpa [hs] using h)]
      rfl

/-- The deviations of samples in range: as many rows as differ, the first row first. -/
theorem deviationsFrom_of_accepted (e : Encoder) (row : Nat)
    (h : ∀ s ∈ samples, s.refusal? = none) :
    ∃ ds, deviationsFrom e row samples = .ok ds ∧ ds.Pairwise (·.row < ·.row) ∧
      ∀ d, d ∈ ds ↔ ∃ i, IsDeviation e samples i (row + i) d := by
  induction samples generalizing e row with
  | nil => exact ⟨[], rfl, .nil, by simp [IsDeviation]⟩
  | cons s ss ih =>
    have hs := h s List.mem_cons_self
    obtain ⟨p, hp, -⟩ := Sample.toPayload_of_refusal_none hs
    obtain ⟨ds, hds, sorted, mem⟩ :=
      ih (e.encode p).2 (row + 1) fun t ht => h t (List.mem_cons_of_mem _ ht)
    refine ⟨_, by rw [deviationsFrom_cons hp, hds, Except.map, Sample.deviations_encode hp hs],
      ?_, ?_⟩
    · rw [List.pairwise_append]
      refine ⟨by cases s.symbolDeviation? row (e.encode p).1 (e.encode p).2 <;> simp, sorted, ?_⟩
      intro d hd d' hd'
      obtain ⟨-, rfl⟩ := Sample.symbolDeviation?_eq_some_iff.mp (Option.mem_toList.mp hd)
      obtain ⟨i, _, _, _, -, -, -, rfl⟩ := (mem d').mp hd'
      simp only
      omega
    · intro d
      have shifted : ∀ i, row + 1 + i = row + (i + 1) := fun i => by omega
      rw [List.mem_append, Option.mem_toList, ← isDeviation_zero_iff hp ss, mem]
      simp only [← isDeviation_succ_iff hp ss, shifted]
      constructor
      · rintro (h0 | ⟨i, hi⟩)
        · exact ⟨0, h0⟩
        · exact ⟨i + 1, hi⟩
      · rintro ⟨_ | i, hi⟩
        · exact Or.inl hi
        · exact Or.inr ⟨i, hi⟩

/-! ## Whole captures -/

theorem findSome?_refusal_eq_none_iff :
    samples.findSome? Sample.refusal? = none ↔ ∀ s ∈ samples, s.refusal? = none :=
  List.findSome?_eq_none_iff

theorem playback_eq_error_iff {err : OutOfRange} :
    playback samples = .error err ↔ samples.findSome? Sample.refusal? = some err := by
  cases h : samples.findSome? Sample.refusal? with
  | some first =>
    rw [playback, deviationsFrom_of_refusal h]
    simp [Except.map]
  | none =>
    obtain ⟨ds, hds, -⟩ := deviationsFrom_of_accepted {} 1
      (findSome?_refusal_eq_none_iff.mp h)
    rw [playback, hds]
    simp [Except.map]

theorem playback_of_accepted (h : ∀ s ∈ samples, s.refusal? = none) :
    ∃ v, playback samples = .ok v ∧ v.samples = samples.length ∧
      v.deviations.Pairwise (·.row < ·.row) ∧
      ∀ d, d ∈ v.deviations ↔ ∃ i, IsDeviation {} samples i (i + 1) d := by
  obtain ⟨ds, hds, sorted, mem⟩ := deviationsFrom_of_accepted {} 1 h
  refine ⟨⟨samples.length, ds⟩, by rw [playback, hds]; rfl, rfl, sorted, ?_⟩
  simpa only [Nat.add_comm 1] using mem

theorem deviations_of_playback {v : Verdict} (h : playback samples = .ok v) :
    v.deviations.Pairwise (·.row < ·.row) ∧
      ∀ d, d ∈ v.deviations ↔ ∃ i, IsDeviation {} samples i (i + 1) d := by
  cases refused : samples.findSome? Sample.refusal? with
  | some err =>
    rw [playback_eq_error_iff.mpr refused] at h
    contradiction
  | none =>
    obtain ⟨w, hw, -, told⟩ := playback_of_accepted (findSome?_refusal_eq_none_iff.mp refused)
    obtain rfl : w = v := Except.ok.inj (hw.symm.trans h)
    exact told

/-- Each sample in range is answered with a symbol. -/
theorem getElem?_answers (h : ∀ s ∈ samples, s.refusal? = none) (i : Nat) :
    samples[i]? = none ∧ (e.answers (samples.map Sample.request))[i]? = none ∨
    ∃ s symbol after, samples[i]? = some s ∧
      (e.answers (samples.map Sample.request))[i]? = some (.ok symbol, after) := by
  induction samples generalizing e i with
  | nil => exact Or.inl ⟨rfl, rfl⟩
  | cons s ss ih =>
    obtain ⟨p, hp, -⟩ := Sample.toPayload_of_refusal_none (h s List.mem_cons_self)
    rw [answers_cons hp]
    cases i with
    | zero => exact Or.inr ⟨s, _, _, rfl, rfl⟩
    | succ i => simpa using ih (e := (e.encode p).2) (fun t ht => h t (List.mem_cons_of_mem _ ht)) i

/-- No row deviates exactly if the symbols of the encoder are the recorded ones. -/
theorem forall_not_isDeviation_iff (h : ∀ s ∈ samples, s.refusal? = none) :
    (∀ i d, ¬ IsDeviation e samples i (i + 1) d) ↔
      (e.answers (samples.map Sample.request)).map (·.1.map Symbol.toNat)
        = samples.map fun s => .ok s.expected.toNat := by
  rw [List.ext_getElem?_iff]
  refine ⟨fun none i => ?_, fun column i d => ?_⟩
  · rw [List.getElem?_map, List.getElem?_map]
    rcases getElem?_answers (e := e) h i with ⟨hs, ha⟩ | ⟨s, symbol, after, hs, ha⟩
    · rw [hs, ha]
      rfl
    · have same : symbol.toNat = s.expected.toNat := by
        by_contra differs
        exact none i _ ⟨s, symbol, after, hs, ha, differs, rfl⟩
      rw [hs, ha, Option.map_some, Option.map_some, ← same]
      rfl
  · rintro ⟨s, symbol, after, hs, ha, differs, -⟩
    have here := column i
    rw [List.getElem?_map, List.getElem?_map, hs, ha, Option.map_some, Option.map_some] at here
    exact differs (Except.ok.inj (Option.some_inj.mp here))

/-! ## Captures with the same inputs -/

theorem IsDeviation.row_eq {i : Nat} {d : Deviation} (h : IsDeviation e samples i row d) :
    d.row = row := by
  obtain ⟨_, _, _, -, -, -, rfl⟩ := h
  rfl

theorem IsDeviation.congr {samples' : List Sample} {i : Nat} {d : Deviation}
    (h : IsDeviation e samples i row d)
    (same : samples.map Sample.request = samples'.map Sample.request)
    (here : samples[i]? = samples'[i]?) : IsDeviation e samples' i row d := by
  obtain ⟨s, symbol, after, hs, ha, differs, hd⟩ := h
  exact ⟨s, symbol, after, here ▸ hs, same ▸ ha, differs, hd⟩

theorem Sample.refusal?_congr {s s' : Sample} (h : s.request = s'.request) :
    s.refusal? = s'.refusal? := by
  obtain ⟨hdata, -, hcontrol⟩ := Encoder.Request.inputs.inj h
  rw [refusal?, refusal?, hdata, hcontrol]

theorem findSome?_refusal_congr {samples samples' : List Sample}
    (h : samples.map Sample.request = samples'.map Sample.request) :
    samples.findSome? Sample.refusal? = samples'.findSome? Sample.refusal? := by
  induction samples generalizing samples' with
  | nil => rw [List.map_eq_nil_iff.mp h.symm]
  | cons s ss ih =>
    obtain ⟨s', ss', rfl, hs, hss⟩ := List.map_eq_cons_iff.mp h.symm
    rw [List.findSome?_cons, List.findSome?_cons, Sample.refusal?_congr hs, ih hss.symm]

/-- Deviations in the order of their rows are told by which there are. -/
theorem eq_of_mem_iff {ds ds' : List Deviation} (h : ds.Pairwise (·.row < ·.row))
    (h' : ds'.Pairwise (·.row < ·.row)) (mem : ∀ d, d ∈ ds ↔ d ∈ ds') : ds = ds' := by
  have : Std.Irrefl fun a b : Deviation => a.row < b.row := ⟨fun a => Nat.lt_irrefl a.row⟩
  have : Std.Antisymm fun a b : Deviation => a.row < b.row :=
    ⟨fun a b hab hba => absurd hba (Nat.lt_asymm hab)⟩
  exact h.eq_of_mem_iff h' mem

/-- **Playing a capture back reports exactly the wrong rows.**  The first sample out of range is an
error.  Without one the deviations are, in order and one a row, the rows where the recorded symbol
is not the answer of a fresh encoder that is asked for the samples one by one; each holds the row
counted from 1, the sample, that answer and the disparity after it.  So none is about decoding, and
there are none just if the recorded symbols are the answers.  What else is recorded in some rows
changes the deviations of those rows only. -/
theorem playback_reports :
    (∀ (samples : List Sample) (err : OutOfRange),
      playback samples = .error err ↔ samples.findSome? Sample.refusal? = some err) ∧
    (∀ samples : List Sample, (∀ s ∈ samples, s.refusal? = none) →
      ∃ v, playback samples = .ok v ∧ v.samples = samples.length ∧
        v.deviations.Pairwise (·.row < ·.row) ∧
        (∀ d, d ∈ v.deviations ↔ ∃ i s symbol after, samples[i]? = some s ∧
          (Encoder.answers {} (samples.map Sample.request))[i]? = some (.ok symbol, after) ∧
          symbol.toNat ≠ s.expected.toNat ∧ d = ⟨i + 1, s, .symbol symbol after.disparity⟩) ∧
        (∀ d ∈ v.deviations, ∀ b, d.finding ≠ .decoded b) ∧
        (v.isClean ↔
          (Encoder.answers {} (samples.map Sample.request)).map (·.1.map Symbol.toNat)
            = samples.map fun s => .ok s.expected.toNat)) ∧
    ∀ samples samples' : List Sample,
      samples.map Sample.request = samples'.map Sample.request →
      (∀ err, playback samples = .error err ↔ playback samples' = .error err) ∧
      ∀ v v', playback samples = .ok v → playback samples' = .ok v' →
        v.deviations.filter (fun d => samples[d.row - 1]? = samples'[d.row - 1]?)
          = v'.deviations.filter fun d => samples[d.row - 1]? = samples'[d.row - 1]? := by
  refine ⟨fun _ _ => playback_eq_error_iff, ?_, ?_⟩
  · intro samples h
    obtain ⟨v, hv, count, sorted, mem⟩ := playback_of_accepted h
    refine ⟨v, hv, count, sorted, mem, ?_, ?_⟩
    · intro d hd b
      obtain ⟨_, _, _, _, -, -, -, rfl⟩ := (mem d).mp hd
      exact nofun
    · rw [← forall_not_isDeviation_iff h, Verdict.isClean, List.isEmpty_iff,
        List.eq_nil_iff_forall_not_mem]
      simp only [mem, not_exists]
      exact forall_comm
  · intro samples samples' same
    refine ⟨fun err => ?_, ?_⟩
    · rw [playback_eq_error_iff, playback_eq_error_iff, findSome?_refusal_congr same]
    · intro v v' hv hv'
      obtain ⟨sorted, mem⟩ := deviations_of_playback hv
      obtain ⟨sorted', mem'⟩ := deviations_of_playback hv'
      refine eq_of_mem_iff (sorted.filter _) (sorted'.filter _) fun d => ?_
      rw [List.mem_filter, List.mem_filter, mem, mem', decide_eq_true_eq]
      refine and_congr_left fun here => exists_congr fun i => ⟨fun h => ?_, fun h => ?_⟩
      · rw [h.row_eq] at here
        exact h.congr same here
      · rw [h.row_eq] at here
        exact h.congr same.symm here.symm

/-- A byte that comes twice, with what was recorded for the second. -/
def byteTwice (recorded : UInt16) : List Sample :=
  [⟨0, true, 0, 256⟩, ⟨0, true, 0, recorded⟩]

/-- The byte goes out inverted the second time.  Recorded as if it did not, its row deviates, and
putting that right changes this row only. -/
theorem playback_reports_byte_twice :
    (∀ s ∈ byteTwice 256, s.refusal? = none) ∧
    (byteTwice 256).map Sample.request = (byteTwice 1023).map Sample.request ∧
    ∃ v v', playback (byteTwice 256) = .ok v ∧ playback (byteTwice 1023) = .ok v' ∧
      ¬ v.isClean ∧ v'.isClean ∧
      v.deviations.filter (fun d => (byteTwice 256)[d.row - 1]? = (byteTwice 1023)[d.row - 1]?)
        = v'.deviations.filter fun d =>
            (byteTwice 256)[d.row - 1]? = (byteTwice 1023)[d.row - 1]? := by
  obtain ⟨v, hv, -, -, -, -, clean⟩ := playback_reports.2.1 (byteTwice 256) (by decide)
  obtain ⟨v', hv', -, -, -, -, clean'⟩ := playback_reports.2.1 (byteTwice 1023) (by decide)
  have same : (byteTwice 256).map Sample.request = (byteTwice 1023).map Sample.request := rfl
  refine ⟨by decide, same, v, v', hv, hv', ?_, ?_,
    (playback_reports.2.2 _ _ same).2 v v' hv hv'⟩
  · rw [clean]; decide
  · rw [clean']; decide

end LineCode.Capture
