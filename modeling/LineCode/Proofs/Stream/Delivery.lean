import LineCode.Stream.Device

/-!
# Obliging devices

A device is obliging if its plan only cuts buffers short or interrupts.  Written to the end, such a
device takes the whole buffer, however it takes it.
-/

namespace LineCode.Stream

/-- Takes something, or asks to be tried again. -/
def Response.Obliging : Response → Prop
  | .take most => 0 < most
  | .fail kind _ => kind = .interrupted

instance : DecidablePred Response.Obliging
  | .take most => inferInstanceAs (Decidable (0 < most))
  | .fail kind _ => inferInstanceAs (Decidable (kind = .interrupted))

namespace Device

/-- No call on the device fails for good. -/
structure Obliging (d : Device) : Prop where
  plan : ∀ r ∈ d.plan, r.Obliging
  flush : d.flushFault = none

theorem Obliging.write_cases {d : Device} (h : d.Obliging) {buf : List UInt8} (hb : buf ≠ []) :
    (∃ n d', ByteSink.write d buf = (.ok (n + 1), d') ∧ d'.Obliging ∧
      d'.out = d.out ++ buf.take (n + 1)) ∨
    ∃ f d', ByteSink.write d buf = (.error f, d') ∧ f.IsInterrupted ∧ d'.Obliging ∧
      d'.out = d.out := by
  obtain ⟨plan, flushFault, out, writes, flushes⟩ := d
  obtain ⟨hplan, hflush⟩ := h
  have hlen : 0 < buf.length := List.length_pos_iff.mpr hb
  cases plan with
  | nil =>
    obtain ⟨n, hn⟩ := Nat.exists_eq_add_one_of_ne_zero (Nat.ne_of_gt hlen)
    refine .inl ⟨n, _, congrArg (fun k => (Except.ok k, _)) hn, ⟨by simp [accept], hflush⟩, ?_⟩
    simp [accept, ← hn]
  | cons r plan =>
    have hrest : ∀ r ∈ plan, r.Obliging := fun r hr => hplan r (List.mem_cons_of_mem _ hr)
    have hfirst := hplan r List.mem_cons_self
    cases r with
    | take most =>
      have hmost : 0 < most := hfirst
      obtain ⟨n, hn⟩ := Nat.exists_eq_add_one_of_ne_zero
        (show min most buf.length ≠ 0 by omega)
      refine .inl ⟨n, _, congrArg (fun k => (Except.ok k, _)) hn, ⟨hrest, hflush⟩, ?_⟩
      simp [accept, ← hn]
    | fail kind message => exact .inr ⟨_, _, rfl, hfirst, ⟨hrest, hflush⟩, by simp [accept]⟩

/-- **An obliging device takes all it is given.** -/
theorem Obliging.writeAll {d : Device} (h : d.Obliging) (buf : List UInt8) :
    ∃ d', ByteSink.writeAll d buf = (.ok (), d') ∧ d'.Obliging ∧ d'.out = d.out ++ buf := by
  -- a case of the loop is either what one obliging write does or contradicts it
  fun_induction ByteSink.writeAll d buf with
  | case1 d => exact ⟨d, rfl, h, by simp⟩
  | case2 d buf hb d' hw =>
    obtain ⟨_, _, hw', -⟩ | ⟨_, _, hw', -⟩ := h.write_cases hb <;> simp [hw] at hw'
  | case3 d buf hb n d' hw ih =>
    obtain ⟨_, _, hw', hd', hout⟩ | ⟨_, _, hw', -⟩ := h.write_cases hb
    · rw [hw] at hw'
      cases hw'
      obtain ⟨d'', hd, ho, hout'⟩ := ih hd'
      exact ⟨d'', hd, ho, by rw [hout', hout, List.append_assoc, List.take_append_drop]⟩
    · simp [hw] at hw'
  | case4 d buf hb f d' hw hf ih =>
    obtain ⟨_, _, hw', -⟩ | ⟨_, _, hw', -, hd', hout⟩ := h.write_cases hb
    · simp [hw] at hw'
    · rw [hw] at hw'
      cases hw'
      rw [← hout]
      exact ih hd'
  | case5 d buf hb f d' hw hf =>
    obtain ⟨_, _, hw', -⟩ | ⟨_, _, hw', hf', -⟩ := h.write_cases hb
    · simp [hw] at hw'
    · rw [hw] at hw'
      cases hw'
      exact absurd hf' hf

theorem Obliging.flush_ok {d : Device} (h : d.Obliging) :
    ∃ d', ByteSink.flush d = (.ok (), d') ∧ d'.Obliging ∧ d'.out = d.out := by
  obtain ⟨plan, flushFault, out, writes, flushes⟩ := d
  obtain ⟨hplan, rfl⟩ := h
  exact ⟨_, rfl, ⟨hplan, rfl⟩, rfl⟩

end Device

end LineCode.Stream
