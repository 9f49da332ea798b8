import LineCode.Proofs.Log.Entry
import LineCode.Proofs.Stream.Attempts

/-!
# What a transmitter tells

The journal of a transmitter is told by its attempts: each tells what its encoder does with the
payload and, if it failed, that the disparity is again what it was.  So the journal says last what
the disparity is, and before each byte what it was.
-/

namespace LineCode.Stream

namespace Attempt

/-- What an attempt tells that starts from this encoder. -/
def told (e : Encoder) (a : Attempt) : List Event :=
  e.events a.payload ++ if a.Accepted then [] else [.rolledBack e.disparity]

/-- Each attempt of a row with the encoder that it starts from. -/
def started : Encoder → List Attempt → List (Encoder × Attempt)
  | _, [] => []
  | e, a :: as => (e, a) :: started (e.after (accepted [a])) as

/-- What a row of attempts tells. -/
def journal (e : Encoder) (as : List Attempt) : List Event :=
  (started e as).flatMap fun x => x.2.told x.1

theorem after_accepted_cons (e : Encoder) (a : Attempt) (as : List Attempt) :
    (e.after (accepted [a])).after (accepted as) = e.after (accepted (a :: as)) := by
  rw [← Encoder.after_append, ← accepted_append, List.singleton_append]

theorem getElem?_started (e : Encoder) (as : List Attempt) (k : Nat) :
    (started e as)[k]? = as[k]?.map (e.after (accepted (as.take k)), ·) := by
  induction as generalizing e k with
  | nil => rfl
  | cons a as ih =>
    cases k with
    | zero => rfl
    | succ k =>
      simp only [started, List.getElem?_cons_succ, ih, List.take_succ_cons, after_accepted_cons]

theorem started_append (e : Encoder) (as bs : List Attempt) :
    started e (as ++ bs) = started e as ++ started (e.after (accepted as)) bs := by
  induction as generalizing e with
  | nil => rfl
  | cons a as ih =>
    rw [List.cons_append, started, started, ih, after_accepted_cons, List.cons_append]

theorem journal_append (e : Encoder) (as bs : List Attempt) :
    journal e (as ++ bs) = journal e as ++ journal (e.after (accepted as)) bs := by
  rw [journal, started_append, List.flatMap_append]
  rfl

theorem journal_cons (e : Encoder) (a : Attempt) (as : List Attempt) :
    journal e (a :: as) = a.told e ++ journal (e.after (accepted [a])) as :=
  rfl

theorem told_of_accepted {a : Attempt} (h : a.Accepted) (e : Encoder) :
    a.told e = e.events a.payload := by
  rw [told, if_pos h, List.append_nil]

theorem told_of_not_accepted {a : Attempt} (h : ¬ a.Accepted) (e : Encoder) :
    a.told e = e.events a.payload ++ [.rolledBack e.disparity] := by
  rw [told, if_neg h]

/-! ## What the journal says of the disparity -/

/-- What the encoder tells of a payload ends in the disparity after it. -/
theorem disparity_events (e : Encoder) (p : Payload) :
    (((e.events p).filterMap Event.disparity?).getLast?).getD e.disparity
      = (e.encode p).2.disparity := by
  cases p with
  | data b => rfl
  | control c =>
    rw [Encoder.events]
    split
    · assumption
    · rfl

theorem disparity_told (e : Encoder) (a : Attempt) :
    (((a.told e).filterMap Event.disparity?).getLast?).getD e.disparity
      = (e.after (accepted [a])).disparity := by
  by_cases h : a.Accepted
  · rw [told_of_accepted h, disparity_events, accepted_cons_of_accepted h]
    rfl
  · rw [told_of_not_accepted h, List.filterMap_append, List.getLast?_append,
      accepted_cons_of_not_accepted h]
    rfl

/-- The journal of a row says last what the disparity has become. -/
theorem disparity_journal (e : Encoder) (as : List Attempt) :
    (((journal e as).filterMap Event.disparity?).getLast?).getD e.disparity
      = (e.after (accepted as)).disparity := by
  induction as generalizing e with
  | nil => rfl
  | cons a as ih =>
    rw [journal_cons, List.filterMap_append, List.getLast?_append, Option.getD_or, disparity_told, ih,
      after_accepted_cons]

theorem before_told (e : Encoder) (a : Attempt) :
    (a.told e).filterMap Event.before? = if a.payload.isData then [e.disparity] else [] := by
  have only : (e.events a.payload).filterMap Event.before?
      = if a.payload.isData then [e.disparity] else [] := by
    cases a.payload with
    | data b => rfl
    | control c =>
      rw [Encoder.events]
      split <;> rfl
  by_cases h : a.Accepted
  · rw [told_of_accepted h, only]
  · rw [told_of_not_accepted h, List.filterMap_append, only]
    exact List.append_nil _

/-- It says, for each attempt at a byte, what the disparity was before. -/
theorem before_journal (e : Encoder) (as : List Attempt) :
    (journal e as).filterMap Event.before?
      = ((started e as).filter (·.2.payload.isData)).map (·.1.disparity) := by
  induction as generalizing e with
  | nil => rfl
  | cons a as ih =>
    rw [journal_cons, List.filterMap_append, before_told, ih, started, List.filter_cons]
    split <;> rfl

end Attempt

namespace Transmitter

theorem journal_send (t : Transmitter Device) (p : Payload) :
    (t.send p).2.journal = t.journal ++ (t.attempt p).told t.encoder := by
  rcases hw : ByteSink.writeAll t.sink (t.encoder.encode p).1.bytes with ⟨f | _, sink⟩
  · have hs := send_of_error hw
    have failed : ¬ (t.attempt p).Accepted := by simp [Attempt.Accepted, attempt, hs]
    rw [Attempt.told_of_not_accepted failed, hs, List.append_assoc]
    rfl
  · have hs := send_of_ok hw
    have through : (t.attempt p).Accepted := by simp [Attempt.Accepted, attempt, hs]
    rw [Attempt.told_of_accepted through, hs]
    rfl

/-- From `t` to `t'` exactly these attempts were made and told. -/
structure Tells (t : Transmitter Device) (as : List Attempt) (t' : Transmitter Device) : Prop where
  encoder : t'.encoder = t.encoder.after (Attempt.accepted as)
  journal : t'.journal = t.journal ++ Attempt.journal t.encoder as

/-- **The attempts of a run tell its journal.** -/
theorem composes_tells : Composes Tells where
  still encoder _ journal := ⟨encoder, by rw [journal]; exact (List.append_nil _).symm⟩
  trans h h' := by
    constructor
    · rw [h'.encoder, h.encoder, Attempt.accepted_append, Encoder.after_append]
    · rw [h'.journal, h.journal, h.encoder, Attempt.journal_append, List.append_assoc]
  send t p := by
    refine ⟨(t.accounts_send p).encoder, ?_⟩
    rw [journal_send, Attempt.journal_cons]
    exact congrArg (t.journal ++ ·) (List.append_nil _).symm

/-! ## The log of a run -/

theorem getLast?_of_forall₂ {α β : Type} {R : α → β → Prop} {xs : List α} {ys : List β}
    (h : List.Forall₂ R xs ys) :
    xs.getLast? = none ∧ ys.getLast? = none ∨
      ∃ x y, xs.getLast? = some x ∧ ys.getLast? = some y ∧ R x y := by
  have backwards := List.forall₂_reverse_iff.mpr h
  rw [List.getLast?_eq_head?_reverse, List.getLast?_eq_head?_reverse]
  generalize xs.reverse = xs, ys.reverse = ys at backwards ⊢
  cases backwards with
  | nil => exact .inl ⟨rfl, rfl⟩
  | cons hxy _ => exact .inr ⟨_, _, rfl, rfl, hxy⟩

/-- What calls have logged. -/
def log (t : Transmitter Device) (steps : List Step) : List Entry :=
  (t.after steps).journal.map Event.entry

variable {t : Transmitter Device} (fresh : t.journal = []) (steps : List Step)
include fresh

theorem log_eq_journal :
    t.log steps = (Attempt.journal t.encoder (t.runAttempts steps)).map Event.entry := by
  rw [log, (composes_tells.run t steps).journal, fresh, List.nil_append]

/-- The last entry on the disparity names what it is.  Where there is none it is what it was. -/
theorem log_names_disparity :
    (∀ last, ((t.log steps).filter (·.TellsDisparity)).getLast? = some last →
      last.Names (t.after steps).encoder.disparity) ∧
    (((t.log steps).filter (·.TellsDisparity)).getLast? = none →
      (t.after steps).encoder.disparity = t.encoder.disparity) := by
  have told := Attempt.disparity_journal t.encoder (t.runAttempts steps)
  rw [← (composes_tells.run t steps).encoder] at told
  rw [log_eq_journal fresh]
  obtain ⟨hnone, hnone'⟩ | ⟨last, d, hlast, hd, names⟩ := getLast?_of_forall₂
    (Event.forall₂_names Event.tellsDisparity_entry_iff Event.names_of_disparity?
      (Attempt.journal t.encoder (t.runAttempts steps)))
  · rw [hnone'] at told
    rw [hnone]
    exact ⟨nofun, fun _ => told.symm⟩
  · rw [hd] at told
    rw [hlast, ← told]
    refine ⟨?_, nofun⟩
    rintro _ ⟨⟩
    exact names

/-- Each attempt at a byte has an entry, which names the disparity before it. -/
theorem log_names_before :
    List.Forall₂ (fun entry x => entry.Names x.1.disparity) ((t.log steps).filter (·.TellsByte))
      ((Attempt.started t.encoder (t.runAttempts steps)).filter (·.2.payload.isData)) := by
  have names := Event.forall₂_names Event.tellsByte_entry_iff Event.names_of_before?
    (Attempt.journal t.encoder (t.runAttempts steps))
  rw [Attempt.before_journal, List.forall₂_map_right_iff, ← log_eq_journal fresh] at names
  exact names

end Transmitter

end LineCode.Stream
