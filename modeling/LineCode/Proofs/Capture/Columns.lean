import LineCode.Capture.Column

/-!
# Where the columns stand

A column stands where the first header cell names it.  Of the columns that no cell names the first
one counts, in the order of the data, the period, the control input and the expected symbol.
-/

namespace LineCode.Capture

/-! ## First faults -/

/-- The first element of the list that the property holds of. -/
def IsFirst {α : Type} (p : α → Prop) (xs : List α) (x : α) : Prop :=
  ∃ before after, xs = before ++ x :: after ∧ (∀ b ∈ before, ¬ p b) ∧ p x

theorem IsFirst.unique {α : Type} {p : α → Prop} {xs : List α} {x y : α} (hx : IsFirst p xs x)
    (hy : IsFirst p xs y) : x = y := by
  classical
  have found : ∀ z, IsFirst p xs z → xs.find? (p ·) = some z := by
    rintro z ⟨before, after, split, notBefore, pz⟩
    rw [List.find?_eq_some_iff_append]
    exact ⟨decide_eq_true pz, before, after, split, fun b hb => by simpa using notBefore b hb⟩
  exact Option.some_inj.mp ((found x hx).symm.trans (found y hy))

@[simp] theorem not_isFirst_nil {α : Type} {p : α → Prop} {y : α} : ¬ IsFirst p [] y := by
  rintro ⟨before, after, split, -⟩
  exact List.append_ne_nil_of_right_ne_nil before (List.cons_ne_nil y after) split.symm

theorem isFirst_cons_iff {α : Type} {p : α → Prop} {x : α} {xs : List α} {y : α} :
    IsFirst p (x :: xs) y ↔ p x ∧ y = x ∨ ¬ p x ∧ IsFirst p xs y := by
  constructor
  · rintro ⟨before, after, split, notBefore, py⟩
    obtain ⟨rfl, head⟩ | ⟨rest, rfl, rfl⟩ := List.cons_eq_append_iff.mp split
    · obtain ⟨rfl, -⟩ := List.cons.inj head
      exact .inl ⟨py, rfl⟩
    · obtain ⟨notX, notRest⟩ := List.forall_mem_cons.mp notBefore
      exact .inr ⟨notX, rest, after, rfl, notRest, py⟩
  · rintro (⟨px, rfl⟩ | ⟨notX, before, after, rfl, notBefore, py⟩)
    · exact ⟨[], xs, rfl, by simp, px⟩
    · exact ⟨x :: before, after, rfl, List.forall_mem_cons.mpr ⟨notX, notBefore⟩, py⟩

theorem exists_isFirst_cons_iff {α : Type} {p q : α → Prop} {x : α} {xs : List α}
    (h : q x → p x) :
    (∃ y, IsFirst p (x :: xs) y ∧ q y) ↔ q x ∨ ¬ p x ∧ ∃ y, IsFirst p xs y ∧ q y := by
  simp only [isFirst_cons_iff]
  constructor
  · rintro ⟨y, ⟨-, rfl⟩ | ⟨notX, first⟩, qy⟩
    · exact .inl qy
    · exact .inr ⟨notX, y, first, qy⟩
  · rintro (qx | ⟨notX, y, first, qy⟩)
    · exact ⟨x, .inl ⟨h qx, rfl⟩, qx⟩
    · exact ⟨y, .inr ⟨notX, first⟩, qy⟩

/-! ## Header cells -/

/-- What stands before a full stop does not count. -/
theorem lastSegment_append (before after : List Char) :
    lastSegment (before ++ '.' :: after) = lastSegment after := by
  rw [lastSegment, lastSegment, List.reverse_append, List.reverse_cons, List.append_assoc,
    List.takeWhile_append]
  split
  · rename_i all
    rw [List.singleton_append, List.takeWhile_cons_of_neg (by simp), List.append_nil,
      (List.takeWhile_prefix _).eq_of_length all]
  · rfl

/-- The columns in the order in which they are looked for. -/
def Column.all : List Column :=
  [data, period, control, expected]

/-- Some cell names the column. -/
def Column.IsIn (c : Column) (header : List String) : Prop :=
  ∃ cell ∈ header, c.IsNamedBy cell

/-- The cell at this index is the first that names the column. -/
def Column.StandsAt (c : Column) (header : List String) (i : Nat) : Prop :=
  ∃ cell, header[i]? = some cell ∧ c.IsNamedBy cell ∧ ∀ other ∈ header.take i, ¬ c.IsNamedBy other

/-- The layout has each column where it stands. -/
def Layout.IsOf (l : Layout) (header : List String) : Prop :=
  ∀ c : Column, c.StandsAt header (l.index c)

/-- The first column that no cell names. -/
def Column.IsFirstMissing (c : Column) (header : List String) : Prop :=
  IsFirst (fun d : Column => ¬ d.IsIn header) all c

variable {header : List String} {c : Column}

theorem Column.find?_eq_none_iff : c.find? header = none ↔ ¬ c.IsIn header := by
  rw [find?, List.findIdx?_eq_none_iff, IsIn]
  simp

theorem Column.find?_eq_some_iff {i : Nat} : c.find? header = some i ↔ c.StandsAt header i := by
  rw [find?, List.findIdx?_eq_some_iff_getElem, StandsAt]
  constructor
  · rintro ⟨hi, named, earlier⟩
    refine ⟨header[i], List.getElem?_eq_getElem hi, of_decide_eq_true named, ?_⟩
    intro other hother
    obtain ⟨j, hj, rfl⟩ := List.mem_take_iff_getElem.mp hother
    simpa using earlier j (by omega)
  · rintro ⟨cell, hcell, named, earlier⟩
    obtain ⟨hi, rfl⟩ := List.getElem?_eq_some_iff.mp hcell
    refine ⟨hi, decide_eq_true named, fun j hj => ?_⟩
    simpa using earlier header[j] (List.mem_take_iff_getElem.mpr ⟨j, by omega, rfl⟩)

theorem Column.StandsAt.isIn {i : Nat} (h : c.StandsAt header i) : c.IsIn header := by
  obtain ⟨cell, hcell, named, -⟩ := h
  exact ⟨cell, List.mem_of_getElem? hcell, named⟩

/-- A column stands in one place only. -/
theorem Column.StandsAt.unique {i j : Nat} (hi : c.StandsAt header i) (hj : c.StandsAt header j) :
    i = j :=
  Option.some_inj.mp ((find?_eq_some_iff.mpr hi).symm.trans (find?_eq_some_iff.mpr hj))

/-- Every column of the layout stands in the header. -/
theorem Layout.IsOf.isIn {l : Layout} (h : l.IsOf header) (c : Column) : c.IsIn header :=
  (h c).isIn

/-- No two columns stand in one cell. -/
theorem Column.eq_of_standsAt {d : Column} {i : Nat} (hc : c.StandsAt header i)
    (hd : d.StandsAt header i) : c = d := by
  obtain ⟨cell, hcell, named, -⟩ := hc
  obtain ⟨other, hother, named', -⟩ := hd
  obtain rfl : cell = other := Option.some_inj.mp (hcell.symm.trans hother)
  have names : c.name.toList = d.name.toList := named.symm.trans named'
  cases c <;> cases d <;> first | rfl | exact absurd names (by decide)

theorem Layout.IsOf.unique {l l' : Layout} (h : l.IsOf header) (h' : l'.IsOf header) : l = l' := by
  have same : ∀ c, l.index c = l'.index c := fun c => (h c).unique (h' c)
  obtain ⟨i, j, k, m⟩ := l
  obtain ⟨i', j', k', m'⟩ := l'
  obtain ⟨rfl, rfl, rfl, rfl⟩ :
      i = i' ∧ j = j' ∧ k = k' ∧ m = m' := ⟨same .data, same .period, same .control, same .expected⟩
  rfl

/-- A header lays down every column, or else its first missing one is told. -/
theorem Layout.ofHeader_cases (header : List String) :
    (∃ l, ofHeader header = .ok l ∧ l.IsOf header) ∨
    ∃ c, ofHeader header = .error c ∧ c.IsFirstMissing header := by
  cases hd : Column.data.find? header with
  | none =>
    refine Or.inr ⟨.data, by simp only [ofHeader, hd]; rfl, [], _, rfl, by simp, ?_⟩
    exact Column.find?_eq_none_iff.mp hd
  | some i =>
  have hi := Column.find?_eq_some_iff.mp hd
  cases hp : Column.period.find? header with
  | none =>
    refine Or.inr ⟨.period, by simp only [ofHeader, hd, hp]; rfl, [.data], _, rfl, ?_, ?_⟩
    · simpa using hi.isIn
    · exact Column.find?_eq_none_iff.mp hp
  | some j =>
  have hj := Column.find?_eq_some_iff.mp hp
  cases hc : Column.control.find? header with
  | none =>
    refine Or.inr ⟨.control, by simp only [ofHeader, hd, hp, hc]; rfl, [.data, .period], _, rfl,
      ?_, ?_⟩
    · simpa using ⟨hi.isIn, hj.isIn⟩
    · exact Column.find?_eq_none_iff.mp hc
  | some k =>
  have hk := Column.find?_eq_some_iff.mp hc
  cases he : Column.expected.find? header with
  | none =>
    refine Or.inr ⟨.expected, by simp only [ofHeader, hd, hp, hc, he]; rfl,
      [.data, .period, .control], _, rfl, ?_, ?_⟩
    · simpa using ⟨hi.isIn, hj.isIn, hk.isIn⟩
    · exact Column.find?_eq_none_iff.mp he
  | some m =>
  refine Or.inl ⟨⟨i, j, k, m⟩, by simp only [ofHeader, hd, hp, hc, he]; rfl, ?_⟩
  intro c
  cases c with
  | data => exact hi
  | period => exact hj
  | control => exact hk
  | expected => exact Column.find?_eq_some_iff.mp he

theorem Layout.exists_isOf (h : ∀ c : Column, c.IsIn header) : ∃ l : Layout, l.IsOf header := by
  rcases ofHeader_cases header with ⟨l, -, stands⟩ | ⟨c, -, -, -, -, -, missing⟩
  · exact ⟨l, stands⟩
  · exact absurd (h c) missing

theorem Layout.ofHeader_of_isOf {l : Layout} (h : l.IsOf header) : ofHeader header = .ok l := by
  rcases ofHeader_cases header with ⟨l', hl', isOf⟩ | ⟨c, -, -, -, -, -, missing⟩
  · rw [hl', isOf.unique h]
  · exact absurd (h.isIn c) missing

theorem Layout.ofHeader_of_isFirstMissing (h : c.IsFirstMissing header) :
    ofHeader header = .error c := by
  rcases ofHeader_cases header with ⟨l, -, isOf⟩ | ⟨d, hd, first⟩
  · obtain ⟨-, -, -, -, missing⟩ := h
    exact absurd (isOf.isIn c) missing
  · rw [hd, first.unique h]

end LineCode.Capture
