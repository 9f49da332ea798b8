import Mathlib.Data.List.Forall2
import LineCode.Proofs.Table.Reading
import LineCode.Proofs.Text.Trimming

/-!
# Cells of a source

The text of a cell is what its bytes spell, without the blanks at its ends.  A header and a row that
can be read hold the texts of the cells of their record, in order.  That the blanks of ASCII are
stripped off the cells of rows before these are read makes no difference to that.
-/

namespace LineCode.Table

/-- The text that bytes spell, but for blanks at its ends. -/
def IsCellText (bytes : List UInt8) (text : String) : Prop :=
  ∃ content, Text.decode bytes = .ok content ∧ Text.trim content = text

/-- The text stands in the cell at the given index of the record. -/
def RawRecord.Holds (r : RawRecord) (i : Nat) (text : String) : Prop :=
  ∃ bytes, r.cells[i]? = some bytes ∧ IsCellText bytes text

/-- The text stands in cell `i` of record `k` of the source.  The header is record 0. -/
def Source.Holds (s : Source) (k i : Nat) (text : String) : Prop :=
  ∃ r, s.records.1[k]? = some r ∧ r.Holds i text

/-! ## One text a cell -/

theorem IsCellText.unique {bytes : List UInt8} {text other : String} (h : IsCellText bytes text)
    (h' : IsCellText bytes other) : text = other := by
  obtain ⟨content, decoded, rfl⟩ := h
  obtain ⟨content', decoded', rfl⟩ := h'
  rw [Except.ok.inj (decoded.symm.trans decoded')]

theorem RawRecord.Holds.unique {r : RawRecord} {i : Nat} {text other : String}
    (h : r.Holds i text) (h' : r.Holds i other) : text = other := by
  obtain ⟨bytes, stands, isText⟩ := h
  obtain ⟨bytes', stands', isText'⟩ := h'
  obtain rfl : bytes = bytes' := Option.some_inj.mp (stands.symm.trans stands')
  exact isText.unique isText'

theorem Source.Holds.unique {s : Source} {k i : Nat} {text other : String} (h : s.Holds k i text)
    (h' : s.Holds k i other) : text = other := by
  obtain ⟨r, record, holds⟩ := h
  obtain ⟨r', record', holds'⟩ := h'
  obtain rfl : r = r' := Option.some_inj.mp (record.symm.trans record')
  exact holds.unique holds'

theorem isCellText_encode (s : String) : IsCellText (Text.encode s) (Text.trim s) :=
  ⟨s, Text.decode_encode s, rfl⟩

/-- Blanks of ASCII that are stripped off early leave the text of a cell. -/
theorem isCellText_trimBytes_iff {bytes : List UInt8} {text : String} :
    IsCellText (Text.trimBytes bytes) text ↔ IsCellText bytes text := by
  constructor
  · rintro ⟨content, decoded, rfl⟩
    exact Text.exists_decode_of_trimBytes decoded
  · rintro ⟨content, decoded, rfl⟩
    rw [← Text.encode_of_decode decoded, Text.trimBytes_encode,
      ← Text.trim_stripBoth_isAsciiBlank]
    exact isCellText_encode _

/-! ## Records that can be read -/

/-- Cells are read if each of them has a text. -/
theorem cellTexts_eq_ok_iff {p : Position} {i : Nat} {cells : List (List UInt8)}
    {texts : List String} :
    cellTexts p i cells = .ok texts ↔ List.Forall₂ IsCellText cells texts := by
  induction cells generalizing i texts with
  | nil =>
    rw [List.forall₂_nil_left_iff, cellTexts, Except.ok.injEq, eq_comm]
  | cons cell cells ih =>
    unfold cellTexts
    rw [List.forall₂_cons_left_iff]
    constructor
    · intro h
      cases decoded : Text.decode cell with
      | error n =>
        rw [decoded] at h
        contradiction
      | ok content =>
        rw [decoded] at h
        cases read : cellTexts p (i + 1) cells with
        | error e =>
          simp only [read] at h
          contradiction
        | ok later =>
          simp only [read] at h
          obtain rfl := Except.ok.inj h
          exact ⟨_, later, ⟨content, decoded, rfl⟩, ih.mp read, rfl⟩
    · rintro ⟨_, later, ⟨content, decoded, rfl⟩, read, rfl⟩
      simp only [decoded, ih.mpr read]
      rfl

namespace RawRecord

variable {r : RawRecord} {texts : List String}

theorem header_eq_ok_iff : r.header = .ok texts ↔ List.Forall₂ IsCellText r.cells texts :=
  cellTexts_eq_ok_iff

theorem row_eq_ok_iff {width : Nat} :
    r.row width = .ok texts ↔ r.cells.length = width ∧ List.Forall₂ IsCellText r.cells texts := by
  unfold row
  split
  · rename_i same
    simp only [cellTexts_eq_ok_iff, List.forall₂_map_left_iff, isCellText_trimBytes_iff, same,
      true_and]
  · rename_i differs
    exact iff_of_false nofun fun h => differs h.1

/-- What a record holds is what was read from it. -/
theorem holds_iff (h : List.Forall₂ IsCellText r.cells texts) {i : Nat} {text : String} :
    r.Holds i text ↔ texts[i]? = some text := by
  obtain ⟨same, each⟩ := List.forall₂_iff_get.mp h
  constructor
  · rintro ⟨bytes, stands, isText⟩
    obtain ⟨hi, rfl⟩ := List.getElem?_eq_some_iff.mp stands
    have read : IsCellText r.cells[i] texts[i] := each i hi (same ▸ hi)
    rw [isText.unique read]
    exact List.getElem?_eq_getElem (same ▸ hi)
  · intro stands
    obtain ⟨hi, rfl⟩ := List.getElem?_eq_some_iff.mp stands
    exact ⟨_, List.getElem?_eq_getElem (same ▸ hi), each i (same ▸ hi) hi⟩

end RawRecord

/-- **A header and a row that can be read hold what stands in the source**, and they have as many
cells. -/
theorem Source.holds_iff_of_reading {s : Source} {names cells : List String} {k : Nat}
    (header : s.reading.header = .ok names) (row : s.reading.rows[k]? = some (.ok cells)) :
    (∀ i text, s.Holds 0 i text ↔ names[i]? = some text) ∧
    (∀ i text, s.Holds (k + 1) i text ↔ cells[i]? = some text) ∧
    cells.length = names.length := by
  unfold reading at header row
  cases hs : s.records with
  | mk records fault =>
  rw [hs] at header row
  cases records with
  | nil => cases fault <;> contradiction
  | cons first rest =>
    have header : first.header = .ok names := header
    obtain ⟨r, record, read⟩ : ∃ r, rest[k]? = some r ∧ r.row first.cells.length = .ok cells := by
      by_cases within : k < (rest.map (·.row first.cells.length)).length
      · rw [List.getElem?_append_left within, List.getElem?_map] at row
        exact Option.map_eq_some_iff.mp row
      · -- behind the records there is at most the failure of the source
        rw [List.getElem?_append_right (Nat.le_of_not_lt within)] at row
        obtain ⟨e, -, isError⟩ := List.mem_map.mp (List.mem_of_getElem? row)
        contradiction
    have headerTexts := RawRecord.header_eq_ok_iff.mp header
    obtain ⟨same, rowTexts⟩ := RawRecord.row_eq_ok_iff.mp read
    refine ⟨fun i text => ?_, fun i text => ?_, ?_⟩
    · rw [← RawRecord.holds_iff headerTexts, Holds, hs]
      simp
    · rw [← RawRecord.holds_iff rowTexts, Holds, hs]
      simp [record]
    · rw [← rowTexts.length_eq, same, headerTexts.length_eq]

end LineCode.Table
