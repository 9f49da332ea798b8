import LineCode.Encoder

/-!
# Runs of an encoder

Step `k` of a run is the encoding of payload `k` by the encoder that the `k` payloads before it
leave behind.  What each step preserves holds along a run, also along the answers to requests, since
a request that is refused changes nothing.
-/

namespace LineCode.Encoder

theorem getElem?_run (e : Encoder) (ps : List Payload) (k : Nat) :
    (e.run ps)[k]? = ps[k]?.map (e.after (ps.take k)).encode := by
  induction ps generalizing e k with
  | nil => simp [run]
  | cons p ps ih =>
    cases k with
    | zero => simp [run]
    | succ k => simp [run, ih]

theorem after_concat (e : Encoder) (ps : List Payload) (p : Payload) :
    e.after (ps ++ [p]) = ((e.after ps).encode p).2 := by
  rw [after_append, after_cons, after_nil]

theorem symbols_concat (e : Encoder) (ps : List Payload) (p : Payload) :
    e.symbols (ps ++ [p]) = e.symbols ps ++ [((e.after ps).encode p).1] := by
  rw [symbols_append, symbols_cons, symbols_nil]

/-- The encoder in step `k` of a run is the one that the payloads up to there leave behind. -/
theorem snd_of_getElem?_run {e : Encoder} {ps : List Payload} {k : Nat} {x : Symbol × Encoder}
    (h : (e.run ps)[k]? = some x) : x.2 = e.after (ps.take (k + 1)) := by
  rw [getElem?_run, Option.map_eq_some_iff] at h
  obtain ⟨p, hp, rfl⟩ := h
  rw [List.take_add_one, hp, Option.toList_some, after_concat]

@[simp] theorem length_symbols (e : Encoder) (ps : List Payload) :
    (e.symbols ps).length = ps.length := by
  induction ps generalizing e with
  | nil => rfl
  | cons p ps ih => simp [ih]

/-- What a function reads off each symbol alone it reads off a list of them. -/
theorem map_symbols {α : Type} {f : Symbol → α} {g : Payload → α}
    (h : ∀ e p, f (encode e p).1 = g p) (e : Encoder) (ps : List Payload) :
    (e.symbols ps).map f = ps.map g := by
  induction ps generalizing e with
  | nil => rfl
  | cons p ps ih => rw [symbols_cons, List.map_cons, List.map_cons, h, ih]

variable {P : Encoder → Prop}

theorem after_induction {e : Encoder} {ps : List Payload}
    (step : ∀ e, ∀ p ∈ ps, P e → P (e.encode p).2) (h : P e) : P (e.after ps) := by
  induction ps generalizing e with
  | nil => exact h
  | cons p ps ih =>
    exact ih (fun e q hq => step e q (List.mem_cons_of_mem _ hq)) (step e p List.mem_cons_self h)

theorem run_induction {e : Encoder} {ps : List Payload}
    (step : ∀ e, ∀ p ∈ ps, P e → P (e.encode p).2) (h : P e) : ∀ x ∈ e.run ps, P x.2 := by
  intro x hx
  obtain ⟨k, hk⟩ := List.getElem?_of_mem hx
  rw [snd_of_getElem?_run hk]
  exact after_induction (fun e p hp => step e p (List.mem_of_mem_take hp)) h

theorem answers_induction {e : Encoder} {rs : List Request}
    (step : ∀ e p, P e → P (e.encode p).2) (h : P e) : ∀ x ∈ e.answers rs, P x.2 := by
  induction rs generalizing e with
  | nil => simp [answers]
  | cons r rs ih =>
    have first : P (e.answer r).2 := by
      unfold answer
      split
      · exact step e _ h
      · exact h
    intro x hx
    rcases List.mem_cons.mp hx with rfl | hx
    · exact first
    · exact ih first x hx

end LineCode.Encoder
