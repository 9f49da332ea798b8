import Mathlib.Data.List.TakeWhile
import LineCode.Proofs.Capture.Deviations
import LineCode.Proofs.Log.Entry

/-!
# What playing a capture back tells

The encoder and the decoder tell of their work at levels of their own.  Above these a playback warns
of each deviation in the rows before the first sample out of range, also where that sample makes it
fail, and a summary closes a playback that succeeds.
-/

namespace LineCode

/-- It is told above the levels of the encoder and the decoder. -/
def Event.IsReport (ev : Event) : Prop :=
  ev.level = .info ∨ ev.level = .warn

instance : DecidablePred Event.IsReport := fun _ => inferInstanceAs (Decidable (_ ∨ _))

namespace Capture

/-! ## One sample -/

theorem filter_isReport_deviated (ds : List Deviation) :
    (ds.map Event.deviated).filter (·.IsReport) = ds.map .deviated := by
  rw [List.filter_map]
  exact congrArg _ (List.filter_eq_self.mpr fun _ _ => rfl)

theorem filter_isReport_encoder (e : Encoder) (p : Payload) :
    (e.events p).filter (·.IsReport) = [] := by
  cases p with
  | data b => rfl
  | control c =>
    rw [Encoder.events]
    split <;> rfl

theorem Sample.filter_isReport_events (s : Sample) (row : Nat) (symbol : Symbol) (after : Encoder) :
    (s.events row symbol after).filter (·.IsReport)
      = (s.deviations row symbol after).map .deviated := by
  have decoder : (if s.dataPeriod then symbol.decodeEvents else []).filter (·.IsReport) = [] := by
    split <;> rfl
  rw [events, List.filter_append, List.filter_append, filter_isReport_deviated,
    filter_isReport_deviated, decoder, List.append_nil, deviations, List.map_append]

/-! ## Rows -/

/-- The rows before the first sample out of range. -/
def early (samples : List Sample) : List Sample :=
  samples.takeWhile (·.refusal? = none)

theorem early_of_refusal {s : Sample} {err : OutOfRange} (h : s.refusal? = some err)
    (ss : List Sample) : early (s :: ss) = [] :=
  List.takeWhile_cons_of_neg (by simp [h])

theorem early_of_accepted {s : Sample} (h : s.refusal? = none) (ss : List Sample) :
    early (s :: ss) = s :: early ss :=
  List.takeWhile_cons_of_pos (by simp [h])

theorem eventsFrom_of_refusal {s : Sample} {err : OutOfRange} (h : s.refusal? = some err)
    (e : Encoder) (row : Nat) (ss : List Sample) : eventsFrom e row (s :: ss) = [] := by
  rw [eventsFrom, Sample.toPayload_of_refusal h]

theorem eventsFrom_cons {s : Sample} {p : Payload} (h : s.toPayload = .ok p) (e : Encoder)
    (row : Nat) (ss : List Sample) :
    eventsFrom e row (s :: ss) = e.events p ++ s.events row (e.encode p).1 (e.encode p).2
      ++ eventsFrom (e.encode p).2 (row + 1) ss := by
  rw [eventsFrom, h]

/-- What is reported of rows are the deviations of the early ones. -/
theorem filter_isReport_eventsFrom (e : Encoder) (row : Nat) (samples : List Sample) :
    ∃ ds, deviationsFrom e row (early samples) = .ok ds ∧
      (eventsFrom e row samples).filter (·.IsReport) = ds.map .deviated := by
  induction samples generalizing e row with
  | nil => exact ⟨[], rfl, rfl⟩
  | cons s ss ih =>
    cases hs : s.refusal? with
    | some err =>
      rw [early_of_refusal hs, eventsFrom_of_refusal hs]
      exact ⟨[], rfl, rfl⟩
    | none =>
      obtain ⟨p, hp, -⟩ := Sample.toPayload_of_refusal_none hs
      obtain ⟨ds, hds, told⟩ := ih (e.encode p).2 (row + 1)
      refine ⟨_, by rw [early_of_accepted hs, deviationsFrom_cons hp, hds]; rfl, ?_⟩
      rw [eventsFrom_cons hp, List.filter_append, List.filter_append, filter_isReport_encoder,
        Sample.filter_isReport_events, told, List.map_append]
      rfl

/-! ## Whole captures -/

/-- Where nothing is refused all rows are early. -/
theorem early_eq_self {samples : List Sample} {v : Verdict} (h : playback samples = .ok v) :
    early samples = samples := by
  have accepted : ∀ s ∈ samples, s.refusal? = none := by
    rw [← findSome?_refusal_eq_none_iff, Option.eq_none_iff_forall_ne_some]
    intro err refused
    rw [playback_eq_error_iff.mpr refused] at h
    contradiction
  exact List.takeWhile_eq_self_iff.mpr (by simpa using accepted)

theorem Verdict.level_summary (v : Verdict) : v.summary.level = .info := by
  rw [summary]
  split <;> rfl

/-- **What a playback reports**: the deviations of the early rows, and then the summary of a verdict
if there is one. -/
theorem filter_isReport_playbackEvents (samples : List Sample) :
    ∃ v, playback (early samples) = .ok v ∧
      ((∃ err, playback samples = .error err) ∧
          (playbackEvents samples).filter (·.IsReport) = v.deviations.map .deviated ∨
        playback samples = .ok v ∧
          (playbackEvents samples).filter (·.IsReport)
            = v.deviations.map .deviated ++ [v.summary]) := by
  obtain ⟨ds, hds, told⟩ := filter_isReport_eventsFrom {} 1 samples
  have first : playback (early samples) = .ok ⟨(early samples).length, ds⟩ := by
    rw [playback, hds]
    rfl
  refine ⟨_, first, ?_⟩
  cases h : playback samples with
  | error err =>
    refine .inl ⟨⟨err, rfl⟩, ?_⟩
    rw [playbackEvents, h, List.append_nil, told]
  | ok v =>
    rw [early_eq_self h, h] at first
    obtain rfl := Except.ok.inj first
    refine .inr ⟨by rw [early_eq_self h], ?_⟩
    have summed : Event.IsReport (Verdict.summary ⟨samples.length, ds⟩) :=
      .inl (Verdict.level_summary _)
    rw [playbackEvents, h, List.filter_append, told, early_eq_self h,
      List.filter_cons_of_pos (by simpa using summed)]
    rfl

/-! ## The log of a playback -/

/-- What a playback logs at a level. -/
def logAt (l : Level) (samples : List Sample) : List Entry :=
  ((playbackEvents samples).map Event.entry).filter (·.level = l)

theorem logAt_eq {l : Level} (hl : l = .info ∨ l = .warn) (samples : List Sample) :
    logAt l samples
      = (((playbackEvents samples).filter (·.IsReport)).filter (·.level = l)).map Event.entry := by
  have report : ∀ ev : Event, ev.level = l → ev.IsReport := by
    rintro ev rfl
    exact hl
  rw [logAt, List.filter_map, List.filter_filter]
  congr 2
  funext ev
  show decide (ev.level = l) = _
  by_cases h : ev.level = l
  · simp [h, report ev h]
  · simp [h]

theorem filter_warn_deviated (ds : List Deviation) :
    (ds.map Event.deviated).filter (·.level = .warn) = ds.map .deviated := by
  rw [List.filter_map]
  exact congrArg _ (List.filter_eq_self.mpr fun _ _ => rfl)

theorem filter_info_deviated (ds : List Deviation) :
    (ds.map Event.deviated).filter (·.level = .info) = [] := by
  rw [List.filter_map]
  exact congrArg _ (List.filter_eq_nil_iff.mpr fun _ _ => Bool.false_ne_true)

theorem filter_level_summary (v : Verdict) (l : Level) :
    [v.summary].filter (·.level = l) = if l = .info then [v.summary] else [] := by
  cases l <;> simp [v.level_summary]

/-- **A playback warns of the deviations of the early rows**, and sums up just if it succeeds. -/
theorem logAt_cases (samples : List Sample) :
    ∃ v, playback (early samples) = .ok v ∧
      logAt .warn samples = v.deviations.map (⟨.warn, ·.text⟩) ∧
      (playback samples = .ok v ∧ logAt .info samples = [v.summary.entry] ∨
        (∃ err, playback samples = .error err) ∧ logAt .info samples = []) := by
  obtain ⟨v, hv, ⟨refused, told⟩ | ⟨whole, told⟩⟩ := filter_isReport_playbackEvents samples
  · refine ⟨v, hv, ?_, .inr ⟨refused, ?_⟩⟩
    · rw [logAt_eq (.inr rfl), told, filter_warn_deviated, List.map_map]
      rfl
    · rw [logAt_eq (.inl rfl), told, filter_info_deviated]
      rfl
  · refine ⟨v, hv, ?_, .inl ⟨whole, ?_⟩⟩
    · rw [logAt_eq (.inr rfl), told, List.filter_append, filter_warn_deviated, filter_level_summary,
        if_neg (by decide), List.append_nil, List.map_map]
      rfl
    · rw [logAt_eq (.inl rfl), told, List.filter_append, filter_info_deviated, filter_level_summary,
        if_pos rfl]
      rfl

end Capture

end LineCode
