import LineCode.Proofs.Capture.Judging
import LineCode.Proofs.Capture.Numbers

/-!
# Overflow while captures are read

A minus sign in front of the least word of 64 bits overflows.  Where arithmetic wraps around, the
number is the least word again, which no column takes, and the cell is told like any other that is
refused.  Where arithmetic is checked, the program stops there instead.  It stops nowhere else: a
cell with an overflow is the first fault of a capture, or it is never looked at.
-/

namespace LineCode.Capture

/-! ## Programs that may stop -/

section StopsIf

variable {α β : Type}

/-- One program stops if there is an overflow, and comes to what the other comes to if not. -/
def StopsIf (overflow : Prop) (x : ExceptT ReadError Option α) (y : Except ReadError α) : Prop :=
  overflow ∧ x.run = none ∨ ¬ overflow ∧ x.run = some y

variable {p q : Prop} {x : ExceptT ReadError Option α} {y : Except ReadError α}

theorem StopsIf.congr (h : StopsIf p x y) (hpq : p ↔ q) : StopsIf q x y := by
  rwa [StopsIf, ← hpq]

theorem StopsIf.pure (a : α) : StopsIf False (Pure.pure a) (Pure.pure a) :=
  .inr ⟨id, rfl⟩

theorem StopsIf.throw (e : ReadError) :
    StopsIf False (throwThe ReadError e) (throwThe ReadError e : Except ReadError α) :=
  .inr ⟨id, rfl⟩

theorem StopsIf.lift (y : Except ReadError α) : StopsIf False (liftExcept y) (liftExcept y) := by
  cases y with
  | error e => exact .throw e
  | ok a => exact .pure a

theorem liftExcept_self (y : Except ReadError α) : (liftExcept y : Except ReadError α) = y := by
  cases y <;> rfl

/-- A sequence stops if its first program does, or if that has a result and the second one stops. -/
theorem StopsIf.bind {f : α → ExceptT ReadError Option β} {g : α → Except ReadError β}
    {q : α → Prop} (h : StopsIf p x y) (hf : ∀ a, StopsIf (q a) (f a) (g a)) :
    StopsIf (p ∨ ∃ a, y = .ok a ∧ q a) (x >>= f) (y >>= g) := by
  obtain ⟨overflow, stopped⟩ | ⟨none, run⟩ := h
  · refine .inl ⟨.inl overflow, ?_⟩
    rw [ExceptT.run_bind, stopped]
    rfl
  · cases y with
    | error e =>
      refine .inr ⟨by simpa using none, ?_⟩
      rw [ExceptT.run_bind, run]
      rfl
    | ok a =>
      have same : (x >>= f).run = (f a).run := by rw [ExceptT.run_bind, run]; rfl
      refine StopsIf.congr (p := q a) ?_ (by simp [none])
      rw [StopsIf, same]
      exact hf a

/-- Only the first program of the sequence may stop. -/
theorem StopsIf.before {f : α → ExceptT ReadError Option β} {g : α → Except ReadError β}
    (h : StopsIf p x y) (hf : ∀ a, StopsIf False (f a) (g a)) : StopsIf p (x >>= f) (y >>= g) :=
  (h.bind hf).congr (by simp)

end StopsIf

/-! ## Cells -/

/-- No column takes the least word. -/
theorem not_accepts_of_negatesLeast {cell : String} (h : Number.NegatesLeast cell.toList)
    (c : Column) : ¬ c.Accepts cell :=
  Column.not_accepts_of_some h.ofChars? (by cases c <;> simp [Column.Takes])

theorem stopsIf_checked (text : String) :
    StopsIf (Number.NegatesLeast text.toList) (checked text) (wrapping text) := by
  rw [← Number.overflows_iff, StopsIf]
  by_cases h : Number.overflows text.toList
  · exact .inl ⟨h, if_pos h⟩
  · exact .inr ⟨h, if_neg h⟩

variable (l : Layout) (row : Nat) (cells : List String)

theorem stopsIf_number (c : Column) :
    StopsIf (Number.NegatesLeast (l.cell cells c).toList) (number checked l row cells c)
      (number wrapping l row cells c) := by
  refine (stopsIf_checked _).before fun n? => ?_
  cases n? with
  | none => exact .throw _
  | some n => exact .pure n

theorem stopsIf_fitting {α : Type} (take? : Int → Option α) (c : Column) :
    StopsIf (Number.NegatesLeast (l.cell cells c).toList) (fitting checked l row cells take? c)
      (fitting wrapping l row cells take? c) := by
  refine (stopsIf_number l row cells c).before fun n => ?_
  cases take? n with
  | none => exact .throw _
  | some a => exact .pure a

theorem stopsIf_fitting32 (c : Column) :
    StopsIf (Number.NegatesLeast (l.cell cells c).toList) (fitting32 checked l row cells c)
      (fitting32 wrapping l row cells c) := by
  refine (stopsIf_number l row cells c).before fun n => ?_
  cases word32? n with
  | none => exact .throw _
  | some w => exact .pure w

/-! ## Rows -/

variable {l cells}

/-- The first of the columns whose cell is refused holds an overflow. -/
def StopsIn (l : Layout) (cells : List String) (cs : List Column) : Prop :=
  ∃ c, IsFirst (fun d : Column => ¬ d.Accepts (l.cell cells d)) cs c ∧
    Number.NegatesLeast (l.cell cells c).toList

theorem StopsIn.not_accepts {cs : List Column} (h : StopsIn l cells cs) : ¬ l.Accepts cells := by
  obtain ⟨c, -, least⟩ := h
  exact fun good => not_accepts_of_negatesLeast least c (good c)

theorem stopsIn_cons_iff {c : Column} {cs : List Column} :
    StopsIn l cells (c :: cs) ↔ Number.NegatesLeast (l.cell cells c).toList ∨
      c.Accepts (l.cell cells c) ∧ StopsIn l cells cs := by
  rw [StopsIn, exists_isFirst_cons_iff (q := fun d => Number.NegatesLeast (l.cell cells d).toList)
    fun least => not_accepts_of_negatesLeast least c, not_not, StopsIn]

/-- The columns are judged one after another, as far as their cells are good. -/
theorem StopsIf.column {α β : Type} {x : ExceptT ReadError Option α} {y : Except ReadError α}
    {f : α → ExceptT ReadError Option β} {g : α → Except ReadError β} {c : Column}
    {cs : List Column} {e : ReadError} {value : α → Prop}
    (h : StopsIf (Number.NegatesLeast (l.cell cells c).toList) x y)
    (judged : ¬ c.Accepts (l.cell cells c) ∧ y = .error e ∨
      c.Accepts (l.cell cells c) ∧ ∃ a, y = .ok a ∧ value a)
    (rest : ∀ a, StopsIf (StopsIn l cells cs) (f a) (g a)) :
    StopsIf (StopsIn l cells (c :: cs)) (x >>= f) (y >>= g) := by
  refine (h.bind rest).congr ?_
  rw [stopsIn_cons_iff]
  obtain ⟨refused, rfl⟩ | ⟨accepted, a, rfl, -⟩ := judged
  · simp [refused]
  · simp [accepted]

theorem stopsIf_sampleOf (l : Layout) (row : Nat) (cells : List String) :
    StopsIf (StopsIn l cells Column.judged) (sampleOf checked l row cells)
      (sampleOf wrapping l row cells) := by
  refine (stopsIf_fitting l row cells truth? .period).column
    (fitting_cases l row cells (fun _ => rfl) truth?_cases) fun dataPeriod => ?_
  refine (stopsIf_fitting32 l row cells .data).column
    (fitting32_cases l row cells (fun _ => rfl) fun _ => Iff.rfl) fun data => ?_
  refine (stopsIf_fitting32 l row cells .control).column
    (fitting32_cases l row cells (fun _ => rfl) fun _ => Iff.rfl) fun control => ?_
  refine (stopsIf_fitting l row cells word16? .expected).column
    (fitting_cases l row cells (fun _ => rfl) word16?_cases) fun expected => ?_
  exact (StopsIf.pure _).congr (by simp [StopsIn])

/-- The first of the rows that is refused is refused for an overflow. -/
def StopsAt (l : Layout) (rows : List (List String)) : Prop :=
  ∃ cells, IsFirst (fun cells => ¬ l.Accepts cells) rows cells ∧ StopsIn l cells Column.judged

theorem stopsAt_cons_iff {rows : List (List String)} :
    StopsAt l (cells :: rows) ↔
      StopsIn l cells Column.judged ∨ l.Accepts cells ∧ StopsAt l rows := by
  rw [StopsAt, exists_isFirst_cons_iff StopsIn.not_accepts, not_not, StopsAt]

theorem stopsIf_samplesOf (l : Layout) (row : Nat) (rows : List (List String)) :
    StopsIf (StopsAt l rows) (samplesOf checked l row rows) (samplesOf wrapping l row rows) := by
  induction rows generalizing row with
  | nil => exact (StopsIf.pure _).congr (by simp [StopsAt])
  | cons cells rows ih =>
    have sequence := (stopsIf_sampleOf l row cells).bind fun s =>
      (ih (row + 1)).before fun samples => StopsIf.pure (s :: samples)
    refine sequence.congr ?_
    rw [stopsAt_cons_iff]
    rcases sampleOf_cases l row cells with ⟨c, refused, first⟩ | ⟨s, read, spells⟩
    · have bad : ¬ l.Accepts cells := fun good => first.not_accepts (good c)
      simp [refused, bad]
    · have good : l.Accepts cells := spells.accepts
      simp [read, good]

/-! ## Captures -/

/-- The capture that a reading holds, where arithmetic is checked. -/
def ofReadingChecked (r : Table.Reading) : Option (Except ReadError (List Sample)) :=
  (ofReadingBy checked r).run

theorem readChecked_eq_ofReadingChecked (s : Table.Source) :
    readChecked s = ofReadingChecked s.reading :=
  congrArg ExceptT.run (readBy_eq_ofReadingBy checked s)

/-- The first fault of a reading is a cell with an overflow. -/
def Overflows (r : Table.Reading) : Prop :=
  ∃ (names : List String) (l : Layout) (good : List (List String)) (cells : List String)
    (c : Column) (rest : List (Except Table.Error (List String))),
    r = ⟨.ok names, good.map .ok ++ .ok cells :: rest⟩ ∧ l.IsOf names ∧
    (∀ cells ∈ good, l.Accepts cells) ∧ IsFirstRefused l cells c ∧
    Number.NegatesLeast (l.cell cells c).toList

theorem overflows_iff {r : Table.Reading} :
    Overflows r ↔ ∃ t l, r.table = .ok t ∧ layoutOf t = .ok l ∧ StopsAt l t.rows := by
  constructor
  · rintro ⟨names, l, good, cells, c, rest, rfl, stands, accepted, first, least⟩
    have rows : (Table.untilError (good.map .ok ++ .ok cells :: rest)).1
        = good ++ cells :: (Table.untilError rest).1 := by
      rw [Table.untilError_ok_append]
      rfl
    refine ⟨_, l, rfl, layoutOf_eq_ok_iff.mpr stands, cells, ?_, c, first, least⟩
    exact ⟨good, _, rows, by simpa using accepted, StopsIn.not_accepts ⟨c, first, least⟩⟩
  · obtain ⟨e | names, results⟩ := r
    · rintro ⟨t, l, ⟨⟩, -⟩
    rintro ⟨_, l, ⟨⟩, laid, cells, ⟨good, rest, rows, accepted, -⟩, c, first, least⟩
    have rows : (Table.untilError results).1 = good ++ cells :: rest := rows
    have stands : l.IsOf names := layoutOf_eq_ok_iff.mp laid
    obtain ⟨more, all⟩ := Table.exists_eq_untilError_append results
    refine ⟨names, l, good, cells, c, rest.map .ok ++ more, ?_, stands, by simpa using accepted,
      first, least⟩
    rw [all, rows, List.map_append, List.append_assoc]
    rfl

theorem stopsIf_ofTable (t : Table) :
    StopsIf (∃ l, layoutOf t = .ok l ∧ StopsAt l t.rows) (ofTable checked t)
      (ofTable wrapping t) := by
  refine ((StopsIf.lift (layoutOf t)).bind fun l =>
    (stopsIf_samplesOf l 1 t.rows).before fun samples => ?_).congr ?_
  · cases t.fault with
    | none => exact .pure samples
    | some e => exact .throw _
  · rw [liftExcept_self, false_or]

theorem stopsIf_ofReading (r : Table.Reading) :
    StopsIf (Overflows r) (ofReadingBy checked r) (ofReadingBy wrapping r) := by
  refine ((StopsIf.lift (r.table.mapError ReadError.table)).bind stopsIf_ofTable).congr ?_
  rw [overflows_iff, liftExcept_self, false_or]
  cases r.table with
  | error e => simp [Except.mapError]
  | ok t => simp [Except.mapError]

/-- **A capture is read exactly if it has no fault, and otherwise its first fault is told.**  The
records of the table are taken as they come: the header first, then each of the columns, then row by
row whether it could be read and whether its cells are numbers that the columns take.  Without a
fault there is a sample a row, with the numbers of its cells.  All this is so where arithmetic wraps
around.  Where it is checked, the program stops just if the first fault is a cell with an overflow,
and otherwise comes to the same. -/
theorem ofReading_judges :
    (∀ s : Table.Source, read s = ofReading s.reading ∧
      readChecked s = ofReadingChecked s.reading) ∧
    (∀ r : Table.Reading, (∃ samples, ofReading r = .ok samples) ↔
      ∃ (names : List String) (l : Layout) (rows : List (List String)),
        r = ⟨.ok names, rows.map .ok⟩ ∧ l.IsOf names ∧
        ∀ cells ∈ rows, ∀ c : Column, c.Accepts (l.cell cells c)) ∧
    (∀ (r : Table.Reading) (samples : List Sample), ofReading r = .ok samples ↔
      ∃ names l rows, r = ⟨.ok names, rows.map .ok⟩ ∧ l.IsOf names ∧
        List.Forall₂ (Spells l) rows samples) ∧
    (∀ (r : Table.Reading) (err : ReadError), ofReading r = .error err ↔ IsFirstFault r err) ∧
    (∀ r : Table.Reading, ofReadingChecked r = none ↔ Overflows r) ∧
    ∀ (r : Table.Reading) (result : Except ReadError (List Sample)),
      ofReadingChecked r = some result ↔ ofReading r = result ∧ ¬ Overflows r := by
  refine ⟨fun s => ⟨read_eq_ofReading s, readChecked_eq_ofReadingChecked s⟩, fun r => ⟨?_, ?_⟩,
    fun _ _ => ofReading_eq_ok_iff, fun _ _ => ofReading_eq_error_iff, fun r => ?_,
    fun r result => ?_⟩
  · rintro ⟨samples, h⟩
    obtain ⟨names, l, rows, rfl, stands, spells⟩ := ofReading_eq_ok_iff.mp h
    exact ⟨names, l, rows, rfl, stands, forall_accepts_of_spells spells⟩
  · rintro ⟨names, l, rows, rfl, stands, accepted⟩
    obtain ⟨samples, spells⟩ := exists_forall₂_spells accepted
    exact ⟨samples, ofReading_of_spells stands spells⟩
  · obtain ⟨overflow, stopped⟩ | ⟨none, run⟩ := stopsIf_ofReading r
    · exact iff_of_true stopped overflow
    · exact iff_of_false (by simp [ofReadingChecked, run]) none
  · obtain ⟨overflow, stopped⟩ | ⟨none, run⟩ := stopsIf_ofReading r
    · exact iff_of_false (by simp [ofReadingChecked, stopped]) fun h => h.2 overflow
    · rw [ofReadingChecked, run, Option.some_inj]
      exact (and_iff_left none).symm

/-- A cell that is told where arithmetic wraps around, and stops the program where it is checked. -/
example :
    (fun r => (ofReading r, ofReadingChecked r))
      ⟨.ok ["data_in", "ve_in", "control_in", "q_out"],
        [.ok ["--9223372036854775808", "1", "0", "256"]]⟩
    = (.error (.unreadable 1 .data "-9223372036854775808"), none) := by decide +kernel

end LineCode.Capture
