import Mathlib.Data.List.Forall2
import LineCode.Encoder

/-!
# Requests that are refused

Raw inputs are refused if one of the numbers is out of range, the data before the control input, and
in either period.  A request that is refused leaves no trace: the others are answered as if it had
not been made, and raw inputs in range are answered as the payload that they describe.
-/

namespace LineCode

/-! ## Raw inputs -/

/-- All that raw inputs can come to. -/
theorem Payload.ofInputs_cases (data : Int) (dataPeriod : Bool) (control : Int) :
    (¬ (0 ≤ data ∧ data ≤ 255) ∧ ofInputs data dataPeriod control = .error ⟨.data, data⟩) ∨
    ((0 ≤ data ∧ data ≤ 255) ∧ ¬ (0 ≤ control ∧ control ≤ 3) ∧
      ofInputs data dataPeriod control = .error ⟨.control, control⟩) ∨
    (0 ≤ data ∧ data ≤ 255) ∧ (0 ≤ control ∧ control ≤ 3) ∧
      ∃ b c, (b.toNat : Int) = data ∧ (c.index : Int) = control ∧
        ofInputs data dataPeriod control = .ok (if dataPeriod then .data b else .control c) := by
  by_cases hdata : 0 ≤ data ∧ data ≤ 255
  · have byte : Quantity.data.accept data = .ok data.toNat := Quantity.accept_of_accepts hdata
    by_cases hcontrol : 0 ≤ control ∧ control ≤ 3
    · have selector : Selector.ofInt control = .ok (Selector.ofIndex control.toNat) := by
        rw [Selector.ofInt, Quantity.accept_of_accepts (q := .control) hcontrol]
        rfl
      refine .inr (.inr ⟨hdata, hcontrol, UInt8.ofNat data.toNat, Selector.ofIndex control.toNat,
        ?_, ?_, ?_⟩)
      · rw [UInt8.toNat_ofNat']
        omega
      · obtain h | h | h | h : control = 0 ∨ control = 1 ∨ control = 2 ∨ control = 3 := by omega
        all_goals subst h; rfl
      · rw [ofInputs, byte, selector]
        rfl
    · refine .inr (.inl ⟨hdata, hcontrol, ?_⟩)
      rw [ofInputs, byte, Selector.ofInt, Quantity.accept_of_not_accepts (q := .control) hcontrol]
      rfl
  · refine .inl ⟨hdata, ?_⟩
    rw [ofInputs, Quantity.accept_of_not_accepts (q := .data) hdata]
    rfl

namespace Encoder

namespace Request

/-- The numbers of the request are in range, also the one that its period does not use. -/
def InRange : Request → Prop
  | inputs data _ control => (0 ≤ data ∧ data ≤ 255) ∧ 0 ≤ control ∧ control ≤ 3
  | payload _ => True

instance : DecidablePred InRange
  | inputs .. => inferInstanceAs (Decidable (_ ∧ _))
  | payload _ => inferInstanceAs (Decidable True)

/-- The request has to be refused, and for this reason. -/
def RefusedFor : Request → OutOfRange → Prop
  | inputs data _ control, err =>
    ¬ (0 ≤ data ∧ data ≤ 255) ∧ err = ⟨.data, data⟩ ∨
    (0 ≤ data ∧ data ≤ 255) ∧ ¬ (0 ≤ control ∧ control ≤ 3) ∧ err = ⟨.control, control⟩
  | payload _, _ => False

/-- What a request in range asks for: in a data period the byte with the value of its data, in a
control period the selector with the index of its control input. -/
def AsksFor : Request → Payload → Prop
  | inputs data true _, p => ∃ b, p = .data b ∧ (b.toNat : Int) = data
  | inputs _ false control, p => ∃ c, p = .control c ∧ (c.index : Int) = control
  | payload q, p => p = q

theorem inRange_iff {r : Request} : r.InRange ↔ ∀ err, ¬ r.RefusedFor err := by
  cases r with
  | payload p => exact iff_of_true trivial fun _ => id
  | inputs data dataPeriod control =>
    show ((0 ≤ data ∧ data ≤ 255) ∧ 0 ≤ control ∧ control ≤ 3) ↔ _
    constructor
    · rintro ⟨hdata, hcontrol⟩ err (⟨no, -⟩ | ⟨-, no, -⟩)
      · exact no hdata
      · exact no hcontrol
    · intro accepted
      have hdata : 0 ≤ data ∧ data ≤ 255 :=
        Decidable.byContradiction fun no => accepted _ (.inl ⟨no, rfl⟩)
      have hcontrol : 0 ≤ control ∧ control ≤ 3 :=
        Decidable.byContradiction fun no => accepted _ (.inr ⟨hdata, no, rfl⟩)
      exact ⟨hdata, hcontrol⟩

/-- A request is refused as it has to be, or it is in range and gets what it asks for. -/
theorem toPayload_cases (r : Request) :
    (∃ err, r.toPayload = .error err ∧ ∀ err', r.RefusedFor err' ↔ err' = err) ∨
    r.InRange ∧ ∃ p, r.toPayload = .ok p ∧ r.AsksFor p := by
  cases r with
  | payload p => exact .inr ⟨trivial, p, rfl, rfl⟩
  | inputs data dataPeriod control =>
    obtain ⟨no, h⟩ | ⟨hdata, no, h⟩ | ⟨hdata, hcontrol, b, c, hb, hc, h⟩ :=
      Payload.ofInputs_cases data dataPeriod control
    · refine .inl ⟨_, h, fun err' => ?_⟩
      simp only [RefusedFor, no, not_false_eq_true, true_and, false_and, or_false]
    · refine .inl ⟨_, h, fun err' => ?_⟩
      simp only [RefusedFor, hdata, no, and_self, not_true_eq_false, not_false_eq_true, true_and,
        false_and, false_or]
    · refine .inr ⟨⟨hdata, hcontrol⟩, _, h, ?_⟩
      cases dataPeriod with
      | true => exact ⟨b, rfl, hb⟩
      | false => exact ⟨c, rfl, hc⟩

end Request

/-! ## One request -/

/-- All that answering a request can do. -/
theorem answer_cases (e : Encoder) (r : Request) :
    (∃ err, e.answer r = (.error err, e) ∧ ¬ r.InRange ∧ ∀ err', r.RefusedFor err' ↔ err' = err) ∨
    r.InRange ∧ ∃ p, r.AsksFor p ∧ e.answer r = (.ok (e.encode p).1, (e.encode p).2) := by
  obtain ⟨err, h, refused⟩ | ⟨accepted, p, h, asks⟩ := r.toPayload_cases
  · refine .inl ⟨err, by rw [answer, h], ?_, refused⟩
    rw [Request.inRange_iff]
    exact fun accepted => accepted err ((refused err).mpr rfl)
  · exact .inr ⟨accepted, p, asks, by rw [answer, h]⟩

/-! ## Requests one after another -/

theorem forall₂_answers (e : Encoder) (rs : List Request) :
    List.Forall₂ (fun r x => ∀ err, x.1 = .error err ↔ r.RefusedFor err) rs (e.answers rs) := by
  induction rs generalizing e with
  | nil => exact .nil
  | cons r rs ih =>
    refine .cons ?_ (ih _)
    intro err
    obtain ⟨err', h, -, refused⟩ | ⟨accepted, p, -, h⟩ := e.answer_cases r
    · rw [h, refused, Except.error.injEq, eq_comm]
    · rw [h]
      exact iff_of_false nofun (Request.inRange_iff.mp accepted err)

/-- Those that succeed are answered as if the others had not been made. -/
theorem filter_answers (e : Encoder) (rs : List Request) :
    (e.answers rs).filter (·.1.isOk) = e.answers (rs.filter (·.InRange)) := by
  induction rs generalizing e with
  | nil => rfl
  | cons r rs ih =>
    obtain ⟨err, h, refused, -⟩ | ⟨accepted, p, -, h⟩ := e.answer_cases r
    · rw [List.filter_cons_of_neg (by simpa using refused), answers, h,
        List.filter_cons_of_neg (by simp [Except.isOk, Except.toBool]), ih]
    · rw [List.filter_cons_of_pos (by simpa using accepted), answers, answers, h,
        List.filter_cons_of_pos rfl, ih]

/-- Requests in range are answered as the payloads that they ask for. -/
theorem exists_answers_eq_run (e : Encoder) {rs : List Request} (h : ∀ r ∈ rs, r.InRange) :
    ∃ ps, List.Forall₂ Request.AsksFor rs ps ∧
      e.answers rs = (e.run ps).map fun x => (.ok x.1, x.2) := by
  induction rs generalizing e with
  | nil => exact ⟨[], .nil, rfl⟩
  | cons r rs ih =>
    obtain ⟨_, -, refused, -⟩ | ⟨-, p, asks, hr⟩ := e.answer_cases r
    · exact absurd (h r List.mem_cons_self) refused
    · obtain ⟨ps, asksRest, hps⟩ := ih (e.encode p).2 fun r' h' => h r' (List.mem_cons_of_mem _ h')
      refine ⟨p :: ps, .cons asks asksRest, ?_⟩
      rw [answers, hr, hps]
      rfl

/-- **Requests that are refused are invisible.**  A request is refused exactly if a number of it is
out of range, for the data if that is, and otherwise for the control input.  The answers to the
others, each with the encoder after it, are those to the same list without the refused ones, and
these are the symbols of the payloads that they ask for. -/
theorem answers_without_refused (e : Encoder) (rs : List Request) :
    List.Forall₂ (fun r x => ∀ err, x.1 = .error err ↔ r.RefusedFor err) rs (e.answers rs) ∧
    (e.answers rs).filter (·.1.isOk) = e.answers (rs.filter (·.InRange)) ∧
    (∃ ps, List.Forall₂ Request.AsksFor (rs.filter (·.InRange)) ps ∧
      e.answers (rs.filter (·.InRange)) = (e.run ps).map fun x => (.ok x.1, x.2)) ∧
    ∀ r : Request, r.InRange ∨ (e.answer r).2 = e := by
  refine ⟨e.forall₂_answers rs, e.filter_answers rs, ?_, ?_⟩
  · apply e.exists_answers_eq_run
    intro r hr
    simpa using (List.mem_filter.mp hr).2
  · intro r
    obtain ⟨err, h, -⟩ | ⟨accepted, -⟩ := e.answer_cases r
    · exact .inr (by rw [h])
    · exact .inl accepted

end Encoder

end LineCode
