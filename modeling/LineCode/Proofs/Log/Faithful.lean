import LineCode.Proofs.Capture.Telling
import LineCode.Proofs.Stream.Telling

/-!
# The log is faithful

What reaches the log is enough to follow the disparity of a transmitter over any device, through
failures as well, and to know the deviations of a capture, also where playing it back fails.
-/

namespace LineCode

namespace Entry

/-- A message has one last word. -/
theorem Names.unique {e : Entry} {d d' : Int} (h : e.Names d) (h' : e.Names d') : d = d' := by
  obtain ⟨front, hfront⟩ := h
  obtain ⟨front', hfront'⟩ := h'
  have same : front.toList ++ ' ' :: (toString d).toList
      = front'.toList ++ ' ' :: (toString d').toList := by
    simpa using congrArg String.toList (hfront.symm.trans hfront')
  have word := congrArg (fun cs => (cs.reverse.takeWhile (· ≠ ' ')).reverse) same
  simp only [takeWhile_reverse_append_blank _ fun _ => ne_blank_of_mem_toString] at word
  rw [← spelled_toString d, word, spelled_toString]

theorem Names.iff_eq {e : Entry} {d : Int} (h : e.Names d) (n : Int) : e.Names n ↔ n = d :=
  ⟨fun h' => h'.unique h, fun h' => h' ▸ h⟩

end Entry

section Faithful

open LineCode.Stream LineCode.Stream.Transmitter LineCode.Capture

/-- **The log is a faithful account.**  After any calls over any plan the last entry on the
disparity names what it is, and without such an entry it is what it was at the start.  The entries
on bytes are one for each attempt at a byte, in order, and name the disparity of the encoder just
before, which is the one that encoded what went through until then.  A playback warns of the
deviations of the rows before the first sample out of range, in their order, whether or not there is
such a sample, and sums up once if there is none and never otherwise. -/
theorem log_faithful :
    (∀ (e : Encoder) (d : Device) (steps : List Step),
      let t : Transmitter Device := { encoder := e, sink := d }
      let t' := t.after steps
      let tries := t.runAttempts steps
      let starts := Attempt.started e tries
      (∀ last, ((t.log steps).filter (·.TellsDisparity)).getLast? = some last →
        ∀ n, last.Names n ↔ n = t'.encoder.disparity) ∧
      (((t.log steps).filter (·.TellsDisparity)).getLast? = none →
        t'.encoder.disparity = e.disparity) ∧
      List.Forall₂ (fun entry x => ∀ n, entry.Names n ↔ n = x.1.disparity)
        ((t.log steps).filter (·.TellsByte)) (starts.filter (·.2.payload.isData)) ∧
      t'.encoder = e.after (Attempt.accepted tries) ∧
      ∀ k a, tries[k]? = some a →
        starts[k]? = some (e.after (Attempt.accepted (tries.take k)), a)) ∧
    ∀ samples : List Sample,
      ∃ v, playback (early samples) = .ok v ∧
        logAt .warn samples = v.deviations.map (⟨.warn, ·.text⟩) ∧
        (∀ w, playback samples = .ok w → w = v ∧ logAt .info samples = [w.summary.entry]) ∧
        ∀ err, playback samples = .error err → logAt .info samples = [] := by
  refine ⟨fun e d steps => ?_, fun samples => ?_⟩
  · intro t t' tries starts
    have fresh : t.journal = [] := rfl
    obtain ⟨last, none⟩ := log_names_disparity fresh steps
    refine ⟨fun l hl => (last l hl).iff_eq, none, ?_, (t.accounts_run steps).encoder, fun k a hk => ?_⟩
    · exact (log_names_before fresh steps).imp fun _ _ names => names.iff_eq
    · rw [Attempt.getElem?_started, hk]
      rfl
  · obtain ⟨v, hv, warnings, ⟨whole, info⟩ | ⟨⟨err, refused⟩, info⟩⟩ := logAt_cases samples
    · refine ⟨v, hv, warnings, fun w hw => ?_, fun err h => ?_⟩
      · obtain rfl : v = w := Except.ok.inj (whole.symm.trans hw)
        exact ⟨rfl, info⟩
      · rw [whole] at h
        contradiction
    · refine ⟨v, hv, warnings, fun w hw => ?_, fun _ _ => info⟩
      rw [refused] at hw
      contradiction

/-- A symbol that is torn behind another one; a row that deviates before one that is refused, and a
capture that passes. -/
theorem log_faithful_torn_and_refused :
    (let t : Transmitter Device :=
        { encoder := {}, sink := { plan := [.take 2, .take 1, .fail .writeZero "full"] } }
     let steps : List Step := [.write [0xFE, 0x00]]
     let last : Entry := ⟨.trace, "write failed, roll cnt back to 8"⟩
     let torn : Attempt := ⟨.data 0x00, some (.device .writeZero "full"), [0x01]⟩
     ((t.log steps).filter (·.TellsDisparity)).getLast? = some last ∧
     (last.Names 8 ↔ 8 = (t.after steps).encoder.disparity) ∧
     ((t.log [.flush]).filter (·.TellsDisparity)).getLast? = none ∧
     (t.after [.flush]).encoder.disparity = 0 ∧
     (t.runAttempts steps)[1]? = some torn ∧
     (Attempt.started {} (t.runAttempts steps))[1]?
       = some (Encoder.after {} (Attempt.accepted ((t.runAttempts steps).take 1)), torn)) ∧
    (let samples : List Sample := [⟨0, true, 0, 255⟩, ⟨256, true, 0, 256⟩]
     playback samples = .error ⟨.data, 256⟩ ∧ logAt .info samples = [] ∧
     ∃ v, playback [⟨0, true, 0, 255⟩] = .ok v ∧
       logAt .warn samples = v.deviations.map (⟨.warn, ·.text⟩)) ∧
    (let w : Verdict := ⟨1, []⟩
     playback [⟨0, true, 0, 256⟩] = .ok w ∧
     logAt .info [⟨0, true, 0, 256⟩] = [⟨.info, "all 1 fixture records passed"⟩]) := by
  refine ⟨?_, ?_, ?_⟩
  · intro t steps last torn
    obtain ⟨names, -, -, -, starts⟩ := log_faithful.1 {} t.sink steps
    obtain ⟨-, still, -⟩ := log_faithful.1 {} t.sink [.flush]
    have hlast : ((t.log steps).filter (·.TellsDisparity)).getLast? = some last := by decide +kernel
    have hnone : ((t.log [.flush]).filter (·.TellsDisparity)).getLast? = none := by decide +kernel
    have htorn : (t.runAttempts steps)[1]? = some torn := by decide +kernel
    exact ⟨hlast, names last hlast 8, hnone, still hnone, htorn, starts 1 torn htorn⟩
  · intro samples
    have refused : playback samples = .error ⟨.data, 256⟩ := by decide +kernel
    obtain ⟨v, hv, warnings, -, silent⟩ := log_faithful.2 samples
    have rows : early samples = [⟨0, true, 0, 255⟩] := by decide +kernel
    exact ⟨refused, silent _ refused, v, rows ▸ hv, warnings⟩
  · intro w
    have passed : playback [⟨0, true, 0, 256⟩] = .ok w := by decide +kernel
    obtain ⟨v, -, -, sums, -⟩ := log_faithful.2 [⟨0, true, 0, 256⟩]
    exact ⟨passed, (sums w passed).2.trans (by decide +kernel)⟩

end Faithful

end LineCode
