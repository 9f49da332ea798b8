import LineCode.Stream.Device

/-!
# Writing call by call

Writing a buffer to the end is a row of single writes, each of what is left.  A device keeps of such
a row a prefix of the buffer: all of it if the row succeeds, and less if it fails.  It fails with a
fault of the device's plan, or because the device took nothing.
-/

namespace LineCode.Stream

/-! ## The row of calls -/

namespace ByteSink

variable {σ : Type} [ByteSink σ]

/-- The single writes that writing a buffer to the end makes: the sink before each, and what it is
given. -/
def calls (s : σ) (buf : List UInt8) : List (σ × List UInt8) :=
  if _hb : buf = [] then []
  else
    (s, buf) ::
      match _hw : write s buf with
      | (.ok 0, _) => []
      | (.ok (n + 1), s') => calls s' (buf.drop (n + 1))
      | (.error f, s') => if _hf : f.IsInterrupted then calls s' buf else []
termination_by patience s + buf.length
decreasing_by
  · have := patience_write_le s buf
    have := List.length_pos_iff.mpr _hb
    simp_all only [List.length_drop]; omega
  · have := patience_write_lt s buf f
    simp_all

@[simp] theorem calls_nil (s : σ) : calls s [] = [] := by
  rw [calls, dif_pos rfl]

theorem calls_of_zero {s s' : σ} {buf : List UInt8} (hb : buf ≠ [])
    (h : write s buf = (.ok 0, s')) : calls s buf = [(s, buf)] := by
  rw [calls, dif_neg hb]
  split <;> simp_all

theorem calls_of_ok {s s' : σ} {buf : List UInt8} {n : Nat} (hb : buf ≠ [])
    (h : write s buf = (.ok (n + 1), s')) :
    calls s buf = (s, buf) :: calls s' (buf.drop (n + 1)) := by
  rw [calls, dif_neg hb]
  split <;> simp_all

theorem calls_of_interrupted {s s' : σ} {buf : List UInt8} {f : Fault} (hb : buf ≠ [])
    (h : write s buf = (.error f, s')) (hf : f.IsInterrupted) :
    calls s buf = (s, buf) :: calls s' buf := by
  rw [calls, dif_neg hb]
  split <;> simp_all

theorem calls_of_error {s s' : σ} {buf : List UInt8} {f : Fault} (hb : buf ≠ [])
    (h : write s buf = (.error f, s')) (hf : ¬ f.IsInterrupted) : calls s buf = [(s, buf)] := by
  rw [calls, dif_neg hb]
  split <;> simp_all

end ByteSink

/-! ## What a device keeps -/

namespace Device

/-- A fault that writing to the device can end in: its plan names it, or the device took nothing. -/
def Faults (d : Device) (f : Fault) : Prop :=
  f = .stalled ∨ ∃ kind message, .fail kind message ∈ d.plan ∧ f = .device kind message

theorem Faults.mono {d d' : Device} {f : Fault} (h : d'.Faults f) (hplan : d'.plan ⊆ d.plan) :
    d.Faults f := by
  obtain rfl | ⟨kind, message, hmem, rfl⟩ := h
  · exact .inl rfl
  · exact .inr ⟨kind, message, hplan hmem, rfl⟩

/-- One write keeps the bytes that it counts, and none if it fails. -/
theorem write_cases (d : Device) (buf : List UInt8) :
    (∃ n d', ByteSink.write d buf = (.ok n, d') ∧ n ≤ buf.length ∧
      d'.out = d.out ++ buf.take n ∧ d'.plan ⊆ d.plan) ∨
    ∃ f d', ByteSink.write d buf = (.error f, d') ∧
      d'.out = d.out ∧ d'.plan ⊆ d.plan ∧ d.Faults f := by
  obtain ⟨plan, flushFault, out, writes, flushes⟩ := d
  cases plan with
  | nil => exact .inl ⟨buf.length, _, rfl, Nat.le_refl _, rfl, List.Subset.refl _⟩
  | cons r plan =>
    cases r with
    | take most =>
      exact .inl ⟨min most buf.length, _, rfl, Nat.min_le_right .., rfl, List.subset_cons_self ..⟩
    | fail kind message =>
      have named : Response.fail kind message ∈ Response.fail kind message :: plan :=
        List.mem_cons_self
      refine .inr ⟨_, _, rfl, ?_, List.subset_cons_self .., .inr ⟨kind, message, named, rfl⟩⟩
      simp [accept]

/-- **A device keeps a prefix of what is written to the end**: all of it if the writing succeeds,
less if it fails. -/
theorem writeAll_cases (d : Device) (buf : List UInt8) :
    (∃ d', ByteSink.writeAll d buf = (.ok (), d') ∧ d'.out = d.out ++ buf) ∨
    ∃ f d' n, ByteSink.writeAll d buf = (.error f, d') ∧ n < buf.length ∧
      d'.out = d.out ++ buf.take n ∧ d.Faults f := by
  fun_induction ByteSink.writeAll d buf with
  | case1 d => exact .inl ⟨d, rfl, by simp⟩
  | case2 d buf hb d' hw =>
    have hlen : 0 < buf.length := List.length_pos_iff.mpr hb
    obtain ⟨n, d'', hw', -, hout, -⟩ | ⟨_, _, hw', -⟩ := d.write_cases buf
    · rw [hw] at hw'
      cases hw'
      exact .inr ⟨_, d', 0, rfl, hlen, hout, .inl rfl⟩
    · simp [hw] at hw'
  | case3 d buf hb n d' hw ih =>
    obtain ⟨k, d'', hw', hk, hout, hplan⟩ | ⟨_, _, hw', -⟩ := d.write_cases buf
    · rw [hw] at hw'
      cases hw'
      -- the row goes on behind the `n + 1` bytes that were taken
      obtain ⟨e, he, hout'⟩ | ⟨f, e, m, he, hm, hout', hf⟩ := ih
      · refine .inl ⟨e, he, ?_⟩
        rw [hout', hout, List.append_assoc, List.take_append_drop]
      · rw [List.length_drop] at hm
        refine .inr ⟨f, e, n + 1 + m, he, by omega, ?_, hf.mono hplan⟩
        rw [hout', hout, List.append_assoc, List.take_add]
    · simp [hw] at hw'
  | case4 d buf hb f d' hw hf ih =>
    obtain ⟨_, _, hw', -⟩ | ⟨_, _, hw', hout, hplan, -⟩ := d.write_cases buf
    · simp [hw] at hw'
    · rw [hw] at hw'
      cases hw'
      rw [← hout]
      obtain done | ⟨g, e, m, he, hm, hout', hg⟩ := ih
      · exact .inl done
      · exact .inr ⟨g, e, m, he, hm, hout', hg.mono hplan⟩
  | case5 d buf hb f d' hw hf =>
    have hlen : 0 < buf.length := List.length_pos_iff.mpr hb
    obtain ⟨_, _, hw', -⟩ | ⟨_, _, hw', hout, -, hfault⟩ := d.write_cases buf
    · simp [hw] at hw'
    · rw [hw] at hw'
      cases hw'
      exact .inr ⟨f, d', 0, rfl, hlen, by simpa using hout, hfault⟩

theorem out_flush (d : Device) : (ByteSink.flush d).2.out = d.out := by
  obtain ⟨plan, flushFault, out, writes, flushes⟩ := d
  cases flushFault <;> rfl

end Device

end LineCode.Stream
