import Mathlib.Algebra.Group.Nat.Defs
import LineCode.Text.Numeral

/-!
# Digits in groups of four

The text of a number in binary is its digits with blanks between them.  The blanks stand so that
every group but the first has four digits, counted from the right, and reading the digits without
them gives the number back.
-/

namespace LineCode.Numeral

/-! ## Binary digits -/

def IsBit (c : Char) : Prop :=
  c = '0' ∨ c = '1'

theorem IsBit.ne_blank {c : Char} (h : IsBit c) : c ≠ ' ' := by
  rintro rfl
  obtain h | h := h
  · exact absurd h (by decide)
  · exact absurd h (by decide)

theorem isBit_of_mem_toDigits {n : Nat} {c : Char} (h : c ∈ Nat.toDigits 2 n) : IsBit c := by
  have last : ∀ {k}, k < 2 → IsBit k.digitChar := by
    intro k hk
    obtain rfl | rfl : k = 0 ∨ k = 1 := by omega
    · exact .inl rfl
    · exact .inr rfl
  induction n using Nat.strongRecOn with
  | ind n ih =>
    rw [Nat.toDigits_eq_if (by omega)] at h
    split at h
    · rename_i small
      obtain rfl := List.mem_singleton.mp h
      exact last small
    · obtain h | h := List.mem_append.mp h
      · exact ih (n / 2) (by omega) h
      · obtain rfl := List.mem_singleton.mp h
        exact last (Nat.mod_lt n (by omega))

theorem isBit_of_mem_binary {width n : Nat} {c : Char} (h : c ∈ binary width n) : IsBit c := by
  unfold binary List.leftpad at h
  obtain h | h := List.mem_append.mp h
  · exact .inl (List.eq_of_mem_replicate h)
  · exact isBit_of_mem_toDigits h

theorem binary_ne_nil (width n : Nat) : binary width n ≠ [] := by
  unfold binary List.leftpad
  exact List.append_ne_nil_of_right_ne_nil _ Nat.toDigits_ne_nil

/-- Leading zeros do not count. -/
theorem ofDigitChars_binary (width n : Nat) : Nat.ofDigitChars 2 (binary width n) 0 = n := by
  unfold binary List.leftpad
  rw [Nat.ofDigitChars_append, Nat.ofDigitChars_replicate_zero, Nat.mul_zero]
  exact Nat.ofDigitChars_toDigits (by omega) (by omega)

theorem length_binary_le_iff {width n k : Nat} (hk : 0 < k) :
    (binary width n).length ≤ k ↔ width ≤ k ∧ n < 2 ^ k := by
  rw [length_binary, Nat.max_le, Nat.length_toDigits_le_iff (by omega) hk]

/-- Exactly the numbers that fit the width have as many digits as it says. -/
theorem length_binary_eq_iff {width n : Nat} (hwidth : 0 < width) :
    (binary width n).length = width ↔ n < 2 ^ width := by
  have le : (binary width n).length ≤ width ↔ width ≤ width ∧ n < 2 ^ width :=
    length_binary_le_iff hwidth
  have ge : width ≤ (binary width n).length := by
    rw [length_binary]
    exact Nat.le_max_left ..
  constructor
  · intro h
    exact (le.mp (Nat.le_of_eq h)).2
  · intro h
    exact Nat.le_antisymm (le.mpr ⟨Nat.le_refl _, h⟩) ge

/-! ## Fours from the right -/

theorem separateFours_of_length_le {ds : List Char} (h : ds.length ≤ 4) : separateFours ds = ds := by
  unfold separateFours
  split
  · simp only [List.length_cons] at h
    omega
  · rfl

theorem groupFours_of_length_le {ds : List Char} (h : ds.length ≤ 4) : groupFours ds = ds := by
  rw [groupFours, separateFours_of_length_le (by simpa using h), List.reverse_reverse]

/-- Four more digits are a group of their own. -/
theorem groupFours_append {ds fours : List Char} (hds : ds ≠ []) (h : fours.length = 4) :
    groupFours (ds ++ fours) = groupFours ds ++ ' ' :: fours := by
  match fours, h with
  | [a, b, c, d], _ =>
    obtain ⟨e, es, hrev⟩ := List.exists_cons_of_ne_nil (mt List.reverse_eq_nil_iff.mp hds)
    simp [groupFours, hrev, separateFours]

/-- Digits are at most four, or four behind others. -/
theorem fours_induction {P : List Char → Prop} (short : ∀ ds, ds.length ≤ 4 → P ds)
    (append : ∀ ds fours, ds ≠ [] → fours.length = 4 → P ds → P (ds ++ fours))
    (ds : List Char) : P ds := by
  by_cases hle : ds.length ≤ 4
  · exact short ds hle
  · have front : ds.take (ds.length - 4) ≠ [] := by
      rw [← List.length_pos_iff, List.length_take]
      omega
    have fours : (ds.drop (ds.length - 4)).length = 4 := by
      rw [List.length_drop]
      omega
    have whole := append _ _ front fours
      (fours_induction short append (ds.take (ds.length - 4)))
    rwa [List.take_append_drop] at whole
termination_by ds.length
decreasing_by rw [List.length_take]; omega

theorem intercalate_concat {α : Type} (sep : List α) {groups : List (List α)} (h : groups ≠ [])
    (last : List α) :
    sep.intercalate (groups ++ [last]) = sep.intercalate groups ++ sep ++ last := by
  induction groups with
  | nil => exact absurd rfl h
  | cons g groups ih =>
    cases groups with
    | nil => simp [List.intercalate_cons_cons]
    | cons g' groups =>
      rw [List.intercalate_cons_cons, List.append_assoc, List.append_assoc,
        ← List.append_assoc _ sep last, ← ih (List.cons_ne_nil _ _), List.cons_append,
        List.cons_append, List.intercalate_cons_cons, List.append_assoc]

/-- Digits are a first group of one to four, and groups of four behind it. -/
theorem exists_groupFours (ds : List Char) (hds : ds ≠ []) :
    ∃ first rest, (1 ≤ first.length ∧ first.length ≤ 4) ∧ (∀ g ∈ rest, g.length = 4) ∧
      (first :: rest).flatten = ds ∧ groupFours ds = [' '].intercalate (first :: rest) := by
  induction ds using fours_induction with
  | short ds hle =>
    refine ⟨ds, [], ⟨List.length_pos_iff.mpr hds, hle⟩, by simp, by simp, ?_⟩
    rw [groupFours_of_length_le hle, List.intercalate_singleton]
  | append ds fours front hfours ih =>
    obtain ⟨first, rest, hfirst, hrest, rfl, hgroups⟩ := ih front
    refine ⟨first, rest ++ [fours], hfirst, ?_, by simp, ?_⟩
    · simpa [or_imp, forall_and, hfours] using hrest
    · rw [groupFours_append front hfours, hgroups, ← List.cons_append,
        intercalate_concat _ (List.cons_ne_nil _ _), List.append_assoc, List.singleton_append]

/-- The ends stay as they are. -/
theorem ends_groupFours (ds : List Char) :
    (groupFours ds).head? = ds.head? ∧ (groupFours ds).getLast? = ds.getLast? := by
  induction ds using fours_induction with
  | short ds hle => rw [groupFours_of_length_le hle]; exact ⟨rfl, rfl⟩
  | append ds fours hds hfours ih =>
    obtain ⟨first, hfirst⟩ := Option.ne_none_iff_exists'.mp (mt List.head?_eq_none_iff.mp hds)
    have some_fours : fours ≠ [] := by
      rintro rfl
      contradiction
    obtain ⟨last, hlast⟩ :=
      Option.ne_none_iff_exists'.mp (mt List.getLast?_eq_none_iff.mp some_fours)
    rw [groupFours_append hds hfours]
    constructor
    · rw [List.head?_append, List.head?_append, ih.1, hfirst]
      rfl
    · rw [List.getLast?_append, List.getLast?_append, List.getLast?_cons, hlast]
      rfl

/-! ## Blanks from the left -/

/-- Digits with a blank before each from which on a multiple of four digits is left. -/
def blanksAtFours : List Char → List Char
  | [] => []
  | c :: cs => (if (cs.length + 1) % 4 = 0 then [' ', c] else [c]) ++ blanksAtFours cs

theorem blanksAtFours_of_length_lt {ds : List Char} (h : ds.length < 4) : blanksAtFours ds = ds := by
  induction ds with
  | nil => rfl
  | cons c cs ih =>
    rw [List.length_cons] at h
    rw [blanksAtFours, if_neg (by omega), ih (by omega), List.singleton_append]

theorem blanksAtFours_append {ds fours : List Char} (h : fours.length = 4) :
    blanksAtFours (ds ++ fours) = blanksAtFours ds ++ ' ' :: fours := by
  induction ds with
  | nil =>
    match fours, h with
    | [_, _, _, _], _ => simp [blanksAtFours]
  | cons c cs ih =>
    have same : ((cs ++ fours).length + 1) % 4 = (cs.length + 1) % 4 := by
      rw [List.length_append]
      omega
    rw [List.cons_append, blanksAtFours, blanksAtFours, ih, same, List.append_assoc]

/-- **The groups can be told from the left**: a blank stands before each digit but the first from
which on a multiple of four digits is left. -/
theorem groupFours_eq_blanksAtFours (ds : List Char) :
    groupFours ds = ds.take 1 ++ blanksAtFours (ds.drop 1) := by
  induction ds using fours_induction with
  | short ds hle =>
    have few : (ds.drop 1).length < 4 := by
      rw [List.length_drop]
      omega
    rw [groupFours_of_length_le hle, blanksAtFours_of_length_lt few, List.take_append_drop]
  | append ds fours hds hfours ih =>
    have one : 1 ≤ ds.length := List.length_pos_iff.mpr hds
    rw [groupFours_append hds hfours, ih, List.take_append_of_le_length one,
      List.drop_append_of_le_length one, blanksAtFours_append hfours, List.append_assoc]

theorem filter_blanksAtFours {ds : List Char} (h : ∀ c ∈ ds, c ≠ ' ') :
    (blanksAtFours ds).filter (· ≠ ' ') = ds := by
  induction ds with
  | nil => rfl
  | cons c cs ih =>
    have hc := h c List.mem_cons_self
    rw [blanksAtFours, List.filter_append, ih fun d hd => h d (List.mem_cons_of_mem _ hd)]
    split <;> simp [hc]

theorem filter_groupFours {ds : List Char} (h : ∀ c ∈ ds, c ≠ ' ') :
    (groupFours ds).filter (· ≠ ' ') = ds := by
  have first : (ds.take 1).filter (· ≠ ' ') = ds.take 1 :=
    List.filter_eq_self.mpr fun c hc => by simpa using h c (List.mem_of_mem_take hc)
  rw [groupFours_eq_blanksAtFours, List.filter_append, first,
    filter_blanksAtFours fun c hc => h c (List.mem_of_mem_drop hc), List.take_append_drop]

/-! ## The text of a number -/

/-- The digits of a text are what is left of it without its blanks. -/
def digits (text : String) : List Char :=
  text.toList.filter (· ≠ ' ')

@[simp] theorem toList_grouped (width n : Nat) :
    (grouped width n).toList = groupFours (binary width n) :=
  String.toList_ofList

@[simp] theorem digits_grouped (width n : Nat) : digits (grouped width n) = binary width n := by
  rw [digits, toList_grouped]
  exact filter_groupFours fun c hc => (isBit_of_mem_binary hc).ne_blank

/-- **The text of a number is its digits in groups of four.**  The groups have single blanks between
them and none around them, all but the first have four digits, and the digits spell the number, so
that numbers that differ have texts that differ. -/
theorem grouped_in_fours :
    (∀ width n : Nat, ∃ first rest,
      (grouped width n).toList = [' '].intercalate (first :: rest) ∧
      (1 ≤ first.length ∧ first.length ≤ 4) ∧ (∀ g ∈ rest, g.length = 4) ∧
      ∀ g ∈ first :: rest, ∀ c ∈ g, IsBit c) ∧
    (∀ width n : Nat,
      (grouped width n).toList.head? ≠ some ' ' ∧ (grouped width n).toList.getLast? ≠ some ' ') ∧
    (∀ width n : Nat, Nat.ofDigitChars 2 (digits (grouped width n)) 0 = n) ∧
    ∀ width n m : Nat, n ≠ m → grouped width n ≠ grouped width m := by
  have reads : ∀ width n, Nat.ofDigitChars 2 (digits (grouped width n)) 0 = n := by
    intro width n
    rw [digits_grouped, ofDigitChars_binary]
  refine ⟨fun width n => ?_, fun width n => ?_, reads, fun width n m differ same => ?_⟩
  · obtain ⟨first, rest, hfirst, hrest, hflatten, hgroups⟩ :=
      exists_groupFours _ (binary_ne_nil width n)
    refine ⟨first, rest, by rw [toList_grouped, hgroups], hfirst, hrest, fun g hg c hc => ?_⟩
    have digit : c ∈ binary width n := hflatten ▸ List.mem_flatten_of_mem hg hc
    exact isBit_of_mem_binary digit
  · obtain ⟨head, last⟩ := ends_groupFours (binary width n)
    rw [toList_grouped, head, last]
    constructor
    · intro h
      exact (isBit_of_mem_binary (List.mem_of_head? h)).ne_blank rfl
    · intro h
      exact (isBit_of_mem_binary (List.mem_of_getLast? h)).ne_blank rfl
  · apply differ
    rw [← reads width n, same, reads]

/-- A number in two groups, and one that differs in its highest bit only. -/
theorem grouped_in_fours_eight :
    (∃ first rest, (grouped 8 0xA5).toList = [' '].intercalate (first :: rest) ∧
      (1 ≤ first.length ∧ first.length ≤ 4) ∧ (∀ g ∈ rest, g.length = 4) ∧
      ∀ g ∈ first :: rest, ∀ c ∈ g, IsBit c) ∧
    (grouped 8 0xA5).toList = [' '].intercalate ["1010".toList, "0101".toList] ∧
    Nat.ofDigitChars 2 (digits (grouped 8 0xA5)) 0 = 0xA5 ∧
    0xA5 ≠ 0x25 ∧ grouped 8 0xA5 ≠ grouped 8 0x25 :=
  ⟨grouped_in_fours.1 8 0xA5, by decide +kernel, grouped_in_fours.2.2.1 8 0xA5, by decide,
    grouped_in_fours.2.2.2 8 0xA5 0x25 (by decide)⟩

example : grouped 10 0b1101010100 = "11 0101 0100" := by decide +kernel

end LineCode.Numeral
