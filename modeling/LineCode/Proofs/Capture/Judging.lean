import Mathlib.Data.List.Forall2
import LineCode.Capture.Read
import LineCode.Proofs.Capture.Columns
import LineCode.Proofs.Table.Reading

/-!
# Judging the rows of captures

A cell is good if it holds a number that its column can take.  A row spells at most one sample, and
it spells one just if all four of its cells are good; otherwise it is refused for the first cell
that is not, in the order of judging.  A capture is read if there is no fault in the header and none
in any row, and otherwise its first fault is told.
-/

namespace LineCode.Capture

/-! ## Numbers that columns take -/

/-- The numbers that a column can take. -/
def Column.Takes : Column → Int → Prop
  | period, n => n = 0 ∨ n = 1
  | data, n | control, n => -2147483648 ≤ n ∧ n ≤ 2147483647
  | expected, n => 0 ≤ n ∧ n ≤ 65535

/-- The number of a sample that stands in a column. -/
def Sample.value (s : Sample) : Column → Int
  | .data => s.data.toInt
  | .period => s.dataPeriod.toNat
  | .control => s.control.toInt
  | .expected => s.expected.toNat

/-- A column takes the numbers of samples. -/
theorem Column.takes_value (c : Column) (s : Sample) : c.Takes (s.value c) := by
  cases c with
  | data => exact ⟨s.data.le_toInt, Int.le_of_lt_add_one s.data.toInt_lt⟩
  | period => cases h : s.dataPeriod <;> simp [Takes, Sample.value, h]
  | control => exact ⟨s.control.le_toInt, Int.le_of_lt_add_one s.control.toInt_lt⟩
  | expected =>
    have := s.expected.toNat_lt
    simp only [Takes, Sample.value]
    omega

/-- A sample is told by its four numbers. -/
theorem Sample.eq_of_value {s s' : Sample} (h : ∀ c, s.value c = s'.value c) : s = s' := by
  obtain ⟨data, dataPeriod, control, expected⟩ := s
  obtain ⟨data', dataPeriod', control', expected'⟩ := s'
  obtain rfl : data = data' := Int32.toInt_inj.mp (h .data)
  obtain rfl : control = control' := Int32.toInt_inj.mp (h .control)
  obtain rfl : expected = expected' := UInt16.toNat_inj.mp (Int.ofNat_inj.mp (h .expected))
  obtain rfl : dataPeriod = dataPeriod' := by
    have := h .period
    cases dataPeriod <;> cases dataPeriod' <;> first | rfl | simp [value] at this
  rfl

theorem word32?_cases (n : Int) :
    ¬ (-2147483648 ≤ n ∧ n ≤ 2147483647) ∧ word32? n = none ∨
    (-2147483648 ≤ n ∧ n ≤ 2147483647) ∧ ∃ w, word32? n = some w ∧ w.toInt = n := by
  by_cases h : -0x80000000 ≤ n ∧ n < 0x80000000
  · exact Or.inr ⟨by omega, _, if_pos h, Int32.toInt_ofInt_of_le h.1 h.2⟩
  · exact Or.inl ⟨by omega, if_neg h⟩

theorem word16?_cases (n : Int) :
    ¬ (0 ≤ n ∧ n ≤ 65535) ∧ word16? n = none ∨
    (0 ≤ n ∧ n ≤ 65535) ∧ ∃ w, word16? n = some w ∧ (w.toNat : Int) = n := by
  by_cases h : 0 ≤ n ∧ n < 0x10000
  · refine Or.inr ⟨by omega, _, if_pos h, ?_⟩
    rw [UInt16.toNat_ofNat']
    omega
  · exact Or.inl ⟨by omega, if_neg h⟩

theorem truth?_cases (n : Int) :
    ¬ (n = 0 ∨ n = 1) ∧ truth? n = none ∨
    (n = 0 ∨ n = 1) ∧ ∃ b, truth? n = some b ∧ (b.toNat : Int) = n := by
  by_cases h0 : n = 0
  · exact Or.inr ⟨Or.inl h0, false, if_pos h0, h0.symm⟩
  by_cases h1 : n = 1
  · exact Or.inr ⟨Or.inr h1, true, by rw [truth?, if_neg h0, if_pos h1], h1.symm⟩
  · exact Or.inl ⟨not_or.mpr ⟨h0, h1⟩, by rw [truth?, if_neg h0, if_neg h1]⟩

/-! ## Cells -/

/-- The cell holds a number that the column can take. -/
def Column.Accepts (c : Column) (cell : String) : Prop :=
  ∃ n, Number.ofText? cell = some n ∧ c.Takes n

/-- How a cell is told that the column does not accept: as it stands, but a number that does not fit
32 bits in decimal. -/
def Column.told : Column → String → String
  | period, cell | expected, cell => cell
  | data, cell | control, cell => ((Number.ofText? cell).map toString).getD cell

theorem Column.told_of_none {c : Column} {cell : String} (h : Number.ofText? cell = none) :
    c.told cell = cell := by
  cases c <;> simp [told, h]

theorem Column.not_accepts_of_none {c : Column} {cell : String} (h : Number.ofText? cell = none) :
    ¬ c.Accepts cell := by
  rintro ⟨n, hn, -⟩
  rw [h] at hn
  contradiction

theorem Column.not_accepts_of_some {c : Column} {cell : String} {n : Int}
    (h : Number.ofText? cell = some n) (notTaken : ¬ c.Takes n) : ¬ c.Accepts cell := by
  rintro ⟨m, hm, taken⟩
  obtain rfl : n = m := Option.some_inj.mp (h.symm.trans hm)
  exact notTaken taken

section Row

variable (l : Layout) (row : Nat) (cells : List String)

/-- The fault of a row whose cell in the column is refused. -/
def refused (c : Column) : ReadError :=
  .unreadable row c (c.told (l.cell cells c))

variable {α : Type} {take? : Int → Option α} {value : α → Int} {c : Column}

theorem number_of_none (h : Number.ofText? (l.cell cells c) = none) :
    number wrapping l row cells c = .error (unreadableCell l row cells c) := by
  rw [number, wrapping, h]
  rfl

theorem number_of_some {n : Int} (h : Number.ofText? (l.cell cells c) = some n) :
    number wrapping l row cells c = .ok n := by
  rw [number, wrapping, h]
  rfl

/-- What a column does with its number decides whether it accepts its cell. -/
theorem number_bind_cases {f : Int → Except ReadError α}
    (h : ∀ n, Number.ofText? (l.cell cells c) = some n →
      ¬ c.Takes n ∧ f n = .error (refused l row cells c) ∨
      c.Takes n ∧ ∃ a, f n = .ok a ∧ value a = n) :
    ¬ c.Accepts (l.cell cells c) ∧
      number wrapping l row cells c >>= f = .error (refused l row cells c) ∨
    c.Accepts (l.cell cells c) ∧ ∃ a, number wrapping l row cells c >>= f = .ok a ∧
      Number.ofText? (l.cell cells c) = some (value a) := by
  cases hn : Number.ofText? (l.cell cells c) with
  | none =>
    rw [number_of_none l row cells hn, refused, Column.told_of_none hn]
    exact Or.inl ⟨Column.not_accepts_of_none hn, rfl⟩
  | some n =>
    rw [number_of_some l row cells hn]
    rcases h n hn with ⟨notTaken, refused⟩ | ⟨taken, a, ha, rfl⟩
    · exact Or.inl ⟨Column.not_accepts_of_some hn notTaken, refused⟩
    · exact Or.inr ⟨⟨_, hn, taken⟩, a, ha, rfl⟩

/-- Reading a column that takes some numbers only. -/
theorem fitting_cases (hc : ∀ cell, c.told cell = cell)
    (h : ∀ n, ¬ c.Takes n ∧ take? n = none ∨ c.Takes n ∧ ∃ a, take? n = some a ∧ value a = n) :
    ¬ c.Accepts (l.cell cells c) ∧
      fitting wrapping l row cells take? c = .error (refused l row cells c) ∨
    c.Accepts (l.cell cells c) ∧ ∃ a, fitting wrapping l row cells take? c = .ok a ∧
      Number.ofText? (l.cell cells c) = some (value a) := by
  refine number_bind_cases l row cells fun n _ => ?_
  rcases h n with ⟨notTaken, none⟩ | ⟨taken, a, ha, hv⟩
  · exact Or.inl ⟨notTaken, by rw [refused, hc, none]; rfl⟩
  · exact Or.inr ⟨taken, a, by rw [ha]; rfl, hv⟩

/-- Reading a column that takes 32 bits. -/
theorem fitting32_cases
    (hc : ∀ cell, c.told cell = ((Number.ofText? cell).map toString).getD cell)
    (h : ∀ n, c.Takes n ↔ -2147483648 ≤ n ∧ n ≤ 2147483647) :
    ¬ c.Accepts (l.cell cells c) ∧
      fitting32 wrapping l row cells c = .error (refused l row cells c) ∨
    c.Accepts (l.cell cells c) ∧ ∃ w, fitting32 wrapping l row cells c = .ok w ∧
      Number.ofText? (l.cell cells c) = some w.toInt := by
  refine number_bind_cases l row cells fun n hn => ?_
  rcases word32?_cases n with ⟨notTaken, none⟩ | ⟨taken, w, hw, hv⟩
  · exact Or.inl ⟨mt (h n).mp notTaken, by rw [refused, hc, hn, none]; rfl⟩
  · exact Or.inr ⟨(h n).mpr taken, w, by rw [hw]; rfl, hv⟩

/-! ## Rows -/

/-- The columns in the order in which the cells of a row are judged. -/
def Column.judged : List Column :=
  [period, data, control, expected]

/-- The cells spell the numbers of the sample. -/
def Spells (s : Sample) : Prop :=
  ∀ c, Number.ofText? (l.cell cells c) = some (s.value c)

/-- The first column in the order of judging whose cell is refused. -/
def IsFirstRefused (c : Column) : Prop :=
  IsFirst (fun d : Column => ¬ d.Accepts (l.cell cells d)) Column.judged c

/-- A row gives the sample that it spells, or else its first cell that is refused is told. -/
theorem sampleOf_cases :
    (∃ c, sampleOf wrapping l row cells = .error (refused l row cells c) ∧
      IsFirstRefused l cells c) ∨
    ∃ s, sampleOf wrapping l row cells = .ok s ∧ Spells l cells s := by
  rcases fitting_cases l row cells (c := .period) (fun _ => rfl) truth?_cases with
    ⟨no, hp⟩ | ⟨yesPeriod, dataPeriod, hp, period⟩
  · exact Or.inl ⟨.period, by rw [sampleOf, hp]; rfl, [], _, rfl, by simp, no⟩
  rcases fitting32_cases l row cells (c := .data) (fun _ => rfl) (fun _ => Iff.rfl) with
    ⟨no, hd⟩ | ⟨yesData, data, hd, isData⟩
  · exact Or.inl ⟨.data, by rw [sampleOf, hp, hd]; rfl, [.period], _, rfl, by simpa, no⟩
  rcases fitting32_cases l row cells (c := .control) (fun _ => rfl) (fun _ => Iff.rfl) with
    ⟨no, hc⟩ | ⟨yesControl, control, hc, isControl⟩
  · exact Or.inl ⟨.control, by rw [sampleOf, hp, hd, hc]; rfl, [.period, .data], _, rfl,
      by simpa using ⟨yesPeriod, yesData⟩, no⟩
  rcases fitting_cases l row cells (c := .expected) (fun _ => rfl) word16?_cases with
    ⟨no, he⟩ | ⟨-, expected, he, isExpected⟩
  · exact Or.inl ⟨.expected, by rw [sampleOf, hp, hd, hc, he]; rfl, [.period, .data, .control], _,
      rfl, by simpa using ⟨yesPeriod, yesData, yesControl⟩, no⟩
  refine Or.inr ⟨⟨data, dataPeriod, control, expected⟩, by rw [sampleOf, hp, hd, hc, he]; rfl, ?_⟩
  intro c
  cases c with
  | data => exact isData
  | period => exact period
  | control => exact isControl
  | expected => exact isExpected

variable {l row cells}

theorem Spells.accepts {s : Sample} (h : Spells l cells s) (c : Column) :
    c.Accepts (l.cell cells c) :=
  ⟨_, h c, c.takes_value s⟩

theorem Spells.unique {s s' : Sample} (h : Spells l cells s) (h' : Spells l cells s') : s = s' :=
  Sample.eq_of_value fun c => Option.some_inj.mp ((h c).symm.trans (h' c))

theorem IsFirstRefused.not_accepts (h : IsFirstRefused l cells c) : ¬ c.Accepts (l.cell cells c) := by
  obtain ⟨-, -, -, -, refused⟩ := h
  exact refused

theorem sampleOf_of_spells {s : Sample} (h : Spells l cells s) :
    sampleOf wrapping l row cells = .ok s := by
  rcases sampleOf_cases l row cells with ⟨c, -, first⟩ | ⟨s', hs', spells⟩
  · exact absurd (h.accepts c) first.not_accepts
  · rw [hs', spells.unique h]

theorem sampleOf_of_isFirstRefused (h : IsFirstRefused l cells c) :
    sampleOf wrapping l row cells = .error (refused l row cells c) := by
  rcases sampleOf_cases l row cells with ⟨d, hd, first⟩ | ⟨s, -, spells⟩
  · rw [hd, first.unique h]
  · exact absurd (spells.accepts c) h.not_accepts

/-- A row whose cells are all good spells a sample. -/
theorem exists_spells (h : ∀ c : Column, c.Accepts (l.cell cells c)) : ∃ s, Spells l cells s := by
  rcases sampleOf_cases l 1 cells with ⟨c, -, first⟩ | ⟨s, -, spells⟩
  · exact absurd (h c) first.not_accepts
  · exact ⟨s, spells⟩

/-- A row is judged by the cells that its layout finds. -/
theorem sampleOf_congr {l' : Layout} {cells' : List String}
    (h : ∀ c, l.cell cells c = l'.cell cells' c) (row : Nat) :
    sampleOf wrapping l row cells = sampleOf wrapping l' row cells' := by
  simp only [sampleOf, fitting, fitting32, number, unreadableCell, h]

/-! ## Rows one after another -/

theorem samplesOf_congr {l' : Layout} {rows rows' : List (List String)}
    (h : List.Forall₂ (fun cells cells' => ∀ c, l.cell cells c = l'.cell cells' c) rows rows')
    (row : Nat) : samplesOf wrapping l row rows = samplesOf wrapping l' row rows' := by
  induction h generalizing row with
  | nil => rfl
  | cons same _ ih => rw [samplesOf, samplesOf, sampleOf_congr same, ih]

theorem samplesOf_cons_ok {s : Sample} (h : sampleOf wrapping l row cells = .ok s)
    (rows : List (List String)) :
    samplesOf wrapping l row (cells :: rows)
      = (samplesOf wrapping l (row + 1) rows).map (s :: ·) := by
  rw [samplesOf, h]
  change (samplesOf wrapping l (row + 1) rows).bind (fun ss => .ok (s :: ss)) = _
  cases samplesOf wrapping l (row + 1) rows <;> rfl

/-- Rows give samples, or else a cell is told that cannot be read. -/
theorem samplesOf_cases (l : Layout) (row : Nat) (rows : List (List String)) :
    (∃ samples, samplesOf wrapping l row rows = .ok samples) ∨
    ∃ n c text, samplesOf wrapping l row rows = .error (.unreadable n c text) := by
  induction rows generalizing row with
  | nil => exact Or.inl ⟨[], rfl⟩
  | cons cells rows ih =>
    rcases sampleOf_cases l row cells with ⟨c, refused, -⟩ | ⟨s, hs, -⟩
    · exact Or.inr ⟨row, c, _, by rw [samplesOf, refused]; rfl⟩
    rw [samplesOf_cons_ok hs]
    rcases ih (row + 1) with ⟨samples, read⟩ | ⟨n, c, text, refused⟩
    · exact Or.inl ⟨s :: samples, by rw [read]; rfl⟩
    · exact Or.inr ⟨n, c, text, by rw [refused]; rfl⟩

theorem samplesOf_of_spells {rows : List (List String)} {samples : List Sample}
    (h : List.Forall₂ (Spells l) rows samples) : samplesOf wrapping l row rows = .ok samples := by
  induction h generalizing row with
  | nil => rfl
  | cons spells _ ih => rw [samplesOf_cons_ok (sampleOf_of_spells spells), ih]; rfl

/-- Good rows do not hide the fault of a later one. -/
theorem samplesOf_of_isFirstRefused {good : List (List String)} {samples : List Sample}
    (h : List.Forall₂ (Spells l) good samples) (first : IsFirstRefused l cells c)
    (rest : List (List String)) :
    samplesOf wrapping l row (good ++ cells :: rest)
      = .error (refused l (row + good.length) cells c) := by
  induction h generalizing row with
  | nil => rw [List.nil_append, samplesOf, sampleOf_of_isFirstRefused first]; rfl
  | cons spells _ ih =>
    rw [List.cons_append, samplesOf_cons_ok (sampleOf_of_spells spells), ih, List.length_cons,
      Nat.add_right_comm, Nat.add_assoc]
    rfl

end Row

/-! ## Captures -/

/-- The samples of a reading of a table, by a way to take texts for numbers. -/
def ofReadingBy {m : Type → Type} [Monad m] [MonadExceptOf ReadError m]
    (ofText : String → m (Option Int)) (r : Table.Reading) : m (List Sample) := do
  ofTable ofText (← liftExcept (r.table.mapError ReadError.table))

theorem readBy_eq_ofReadingBy {m : Type → Type} [Monad m] [MonadExceptOf ReadError m]
    (ofText : String → m (Option Int)) (s : Table.Source) :
    readBy ofText s = ofReadingBy ofText s.reading := by
  rw [readBy, Table.read_eq_table, ofReadingBy]

/-- The capture that a reading of a table holds. -/
def ofReading (r : Table.Reading) : Except ReadError (List Sample) :=
  ofReadingBy wrapping r

theorem read_eq_ofReading (s : Table.Source) : read s = ofReading s.reading :=
  readBy_eq_ofReadingBy wrapping s

/-- Every cell of the row is good. -/
def Layout.Accepts (l : Layout) (cells : List String) : Prop :=
  ∀ c : Column, c.Accepts (l.cell cells c)

/-- The fault that a reading of a table is refused for. -/
inductive IsFirstFault : Table.Reading → ReadError → Prop
  /-- An unreadable header, whatever the rows are. -/
  | header (e : Table.Error) (rows : List (Except Table.Error (List String))) :
    IsFirstFault ⟨.error e, rows⟩ (.table e)
  /-- A column that the header does not name, whatever the rows are. -/
  | column {names : List String} {c : Column} (missing : c.IsFirstMissing names)
      (rows : List (Except Table.Error (List String))) :
    IsFirstFault ⟨.ok names, rows⟩ (.missingColumn c)
  /-- An unreadable row behind good ones, whatever follows. -/
  | row {names : List String} {l : Layout} (stands : l.IsOf names) {good : List (List String)}
      (before : ∀ cells ∈ good, l.Accepts cells) (e : Table.Error)
      (rest : List (Except Table.Error (List String))) :
    IsFirstFault ⟨.ok names, good.map .ok ++ .error e :: rest⟩ (.table e)
  /-- A cell of a row behind good ones, whatever follows. -/
  | cell {names : List String} {l : Layout} (stands : l.IsOf names) {good : List (List String)}
      (before : ∀ cells ∈ good, l.Accepts cells) {cells : List String} {c : Column}
      (first : IsFirstRefused l cells c) (rest : List (Except Table.Error (List String))) :
    IsFirstFault ⟨.ok names, good.map .ok ++ .ok cells :: rest⟩
      (refused l (good.length + 1) cells c)

variable {l : Layout} {names : List String}

/-- Rows are good up to the end, up to an unreadable one, or up to one with a cell that is refused. -/
theorem rows_cases (l : Layout) (results : List (Except Table.Error (List String))) :
    ∃ good : List (List String), (∀ cells ∈ good, l.Accepts cells) ∧
      (results = good.map .ok ∨
        (∃ e rest, results = good.map .ok ++ .error e :: rest) ∨
        ∃ cells rest c, results = good.map .ok ++ .ok cells :: rest ∧ IsFirstRefused l cells c) := by
  induction results with
  | nil => exact ⟨[], by simp, Or.inl rfl⟩
  | cons result results ih =>
    rcases result with e | cells
    · exact ⟨[], by simp, Or.inr (Or.inl ⟨e, results, rfl⟩)⟩
    rcases sampleOf_cases l 1 cells with ⟨c, -, first⟩ | ⟨s, -, spells⟩
    · exact ⟨[], by simp, Or.inr (Or.inr ⟨cells, results, c, rfl, first⟩)⟩
    obtain ⟨good, accepted, split⟩ := ih
    refine ⟨cells :: good, List.forall_mem_cons.mpr ⟨spells.accepts, accepted⟩, ?_⟩
    rcases split with rfl | ⟨e, rest, rfl⟩ | ⟨bad, rest, c, rfl, first⟩
    · exact Or.inl rfl
    · exact Or.inr (Or.inl ⟨e, rest, rfl⟩)
    · exact Or.inr (Or.inr ⟨bad, rest, c, rfl, first⟩)

/-- Good rows spell samples. -/
theorem exists_forall₂_spells {rows : List (List String)} (h : ∀ cells ∈ rows, l.Accepts cells) :
    ∃ samples, List.Forall₂ (Spells l) rows samples := by
  induction rows with
  | nil => exact ⟨[], .nil⟩
  | cons cells rows ih =>
    obtain ⟨s, hs⟩ := exists_spells (h cells List.mem_cons_self)
    obtain ⟨samples, hsamples⟩ := ih fun cells' h' => h cells' (List.mem_cons_of_mem _ h')
    exact ⟨s :: samples, .cons hs hsamples⟩

theorem forall_accepts_of_spells {rows : List (List String)} {samples : List Sample}
    (h : List.Forall₂ (Spells l) rows samples) : ∀ cells ∈ rows, l.Accepts cells := by
  induction h with
  | nil => simp
  | cons spells _ ih => exact List.forall_mem_cons.mpr ⟨spells.accepts, ih⟩

theorem layoutOf_eq_ok_iff {t : Table} : layoutOf t = .ok l ↔ l.IsOf t.header := by
  rw [layoutOf]
  rcases Layout.ofHeader_cases t.header with ⟨l', found, stands⟩ | ⟨c, missing, first⟩
  · rw [found]
    exact ⟨fun h => Except.ok.inj h ▸ stands, fun h => congrArg Except.ok (stands.unique h)⟩
  · obtain ⟨-, -, -, -, absent⟩ := first
    rw [missing]
    exact iff_of_false nofun fun h => absent (h.isIn c)

theorem ofReading_ok (rows : List (Except Table.Error (List String))) (h : l.IsOf names) :
    ofReading ⟨.ok names, rows⟩ =
      (samplesOf wrapping l 1 (Table.untilError rows).1).bind fun samples =>
        match (Table.untilError rows).2 with
        | some e => .error (.table e)
        | none => .ok samples := by
  have laid : layoutOf ⟨names, (Table.untilError rows).1, (Table.untilError rows).2⟩ = .ok l :=
    layoutOf_eq_ok_iff.mpr h
  change ofTable wrapping _ = _
  rw [ofTable, laid]
  rfl

theorem ofReading_of_spells (h : l.IsOf names) {rows : List (List String)} {samples : List Sample}
    (spells : List.Forall₂ (Spells l) rows samples) :
    ofReading ⟨.ok names, rows.map .ok⟩ = .ok samples := by
  rw [ofReading_ok _ h, Table.untilError_ok, samplesOf_of_spells spells]
  rfl

theorem ofReading_of_isFirstFault {r : Table.Reading} {err : ReadError} (h : IsFirstFault r err) :
    ofReading r = .error err := by
  cases h with
  | header e rows => rfl
  | column missing rows =>
    change ofTable wrapping _ = _
    rw [ofTable, layoutOf, Layout.ofHeader_of_isFirstMissing missing]
    rfl
  | row stands before e rest =>
    obtain ⟨samples, spells⟩ := exists_forall₂_spells before
    rw [ofReading_ok _ stands, Table.untilError_ok_append, Table.untilError, List.append_nil,
      samplesOf_of_spells spells]
    rfl
  | cell stands before first rest =>
    obtain ⟨samples, spells⟩ := exists_forall₂_spells before
    rw [ofReading_ok _ stands, Table.untilError_ok_append, Table.untilError,
      samplesOf_of_isFirstRefused spells first, Nat.add_comm 1]
    rfl

/-- A reading has a first fault, or its rows spell samples. -/
theorem isFirstFault_or_spells (r : Table.Reading) :
    (∃ err, IsFirstFault r err) ∨ ∃ names l rows samples, r = ⟨.ok names, rows.map .ok⟩ ∧
      l.IsOf names ∧ List.Forall₂ (Spells l) rows samples := by
  obtain ⟨e | names, results⟩ := r
  · exact Or.inl ⟨_, .header e results⟩
  rcases Layout.ofHeader_cases names with ⟨l, -, stands⟩ | ⟨c, -, missing⟩
  · obtain ⟨good, accepted, rfl | ⟨e, rest, rfl⟩ | ⟨cells, rest, c, rfl, first⟩⟩ := rows_cases l results
    · obtain ⟨samples, spells⟩ := exists_forall₂_spells accepted
      exact Or.inr ⟨names, l, good, samples, rfl, stands, spells⟩
    · exact Or.inl ⟨_, .row stands accepted e rest⟩
    · exact Or.inl ⟨_, .cell stands accepted first rest⟩
  · exact Or.inl ⟨_, .column missing results⟩

theorem ofReading_eq_ok_iff {r : Table.Reading} {samples : List Sample} :
    ofReading r = .ok samples ↔ ∃ names l rows, r = ⟨.ok names, rows.map .ok⟩ ∧ l.IsOf names ∧
      List.Forall₂ (Spells l) rows samples := by
  constructor
  · intro h
    rcases isFirstFault_or_spells r with
      ⟨err, fault⟩ | ⟨names, l, rows, samples', rfl, stands, spells⟩
    · rw [ofReading_of_isFirstFault fault] at h
      contradiction
    · obtain rfl : samples' = samples :=
        Except.ok.inj ((ofReading_of_spells stands spells).symm.trans h)
      exact ⟨names, l, rows, rfl, stands, spells⟩
  · rintro ⟨names, l, rows, rfl, stands, spells⟩
    exact ofReading_of_spells stands spells

theorem ofReading_eq_error_iff {r : Table.Reading} {err : ReadError} :
    ofReading r = .error err ↔ IsFirstFault r err := by
  refine ⟨fun h => ?_, ofReading_of_isFirstFault⟩
  rcases isFirstFault_or_spells r with
    ⟨err', fault⟩ | ⟨names, l, rows, samples, rfl, stands, spells⟩
  · rw [ofReading_of_isFirstFault fault] at h
    exact Except.error.inj h ▸ fault
  · rw [ofReading_of_spells stands spells] at h
    contradiction

end LineCode.Capture
