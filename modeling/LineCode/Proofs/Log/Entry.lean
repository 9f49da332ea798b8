import Mathlib.Data.List.Forall2
import LineCode.Event
import LineCode.Proofs.Text.Grouping

/-!
# Entries of the log

What reaches the log of an event is its level and its message.  Three kinds of messages say what the
disparity has become, and one what it is before a byte is encoded; each of them ends in the number.
-/

namespace LineCode

/-- An event as it stands in the log. -/
structure Entry where
  level : Level
  message : String
  deriving DecidableEq

def Event.entry (ev : Event) : Entry :=
  ⟨ev.level, ev.message⟩

namespace Entry

/-- The message begins with these words. -/
def Opens (e : Entry) (words : String) : Prop :=
  words.toList <+: e.message.toList

instance (e : Entry) (words : String) : Decidable (e.Opens words) :=
  inferInstanceAs (Decidable (_ <+: _))

/-- It says what the disparity has become: with a symbol, after a symbol that did not reach its
sink, or in a control period. -/
def TellsDisparity (e : Entry) : Prop :=
  e.level = .trace ∧ (e.Opens "emit " ∨ e.Opens "write failed, roll cnt back to ") ∨
  e.level = .debug ∧ e.Opens "control period "

instance : DecidablePred TellsDisparity := fun _ => inferInstanceAs (Decidable (_ ∨ _))

/-- It says that a byte is to be encoded. -/
def TellsByte (e : Entry) : Prop :=
  e.level = .trace ∧ e.Opens "data "

instance : DecidablePred TellsByte := fun _ => inferInstanceAs (Decidable (_ ∧ _))

/-- The last word of the message is this number. -/
def Names (e : Entry) (d : Int) : Prop :=
  ∃ front, e.message = front ++ " " ++ toString d

/-! ## Last words -/

theorem ne_blank_of_mem_toString {d : Int} {c : Char} (h : c ∈ (toString d).toList) : c ≠ ' ' := by
  have digit : ∀ {n : Nat}, c ∈ n.repr.toList → c ≠ ' ' := by
    rintro n hc rfl
    rw [Nat.toList_repr] at hc
    exact absurd (Nat.isDigit_of_mem_toDigits (by omega) (by omega) hc) (by decide)
  rw [Int.toString_eq_repr, Int.repr_eq_if] at h
  split at h
  · exact digit h
  · rw [String.toList_append, List.mem_append] at h
    obtain h | h := h
    · obtain rfl : c = '-' := by simpa using h
      decide
    · exact digit h

/-- The number that digits spell, with a minus sign in front or not. -/
def spelled : List Char → Int
  | '-' :: digits => -(Nat.ofDigitChars 10 digits 0 : Int)
  | digits => Nat.ofDigitChars 10 digits 0

/-- A number can be told from its text. -/
theorem spelled_toString (d : Int) : spelled (toString d).toList = d := by
  have digits (n : Nat) : spelled n.repr.toList = n := by
    rw [spelled.eq_def]
    split
    · rename_i rest minus
      have sign : '-' ∈ Nat.toDigits 10 n := by
        rw [← Nat.toList_repr, minus]
        exact List.mem_cons_self
      exact absurd (Nat.isDigit_of_mem_toDigits (by omega) (by omega) sign) (by decide)
    · rw [Nat.toList_repr, Nat.ofDigitChars_ten_toDigits]
  rw [Int.toString_eq_repr, Int.repr_eq_if]
  split
  · rw [digits]
    omega
  · rw [String.toList_append, Nat.toList_repr]
    show -(Nat.ofDigitChars 10 (Nat.toDigits 10 (-d).toNat) 0 : Int) = d
    rw [Nat.ofDigitChars_ten_toDigits]
    omega

theorem takeWhile_reverse_append_blank (front : List Char) {word : List Char}
    (h : ∀ c ∈ word, c ≠ ' ') :
    ((front ++ ' ' :: word).reverse.takeWhile (· ≠ ' ')).reverse = word := by
  have all : ∀ c ∈ word.reverse, decide (c ≠ ' ') = true := by simpa using h
  rw [List.reverse_append, List.reverse_cons, List.append_assoc, List.takeWhile_append_of_pos all]
  simp

end Entry

namespace Event

/-! ## What an event tells -/

/-- What the disparity has become. -/
def disparity? : Event → Option Int
  | emitted _ d | rolledBack d => some d
  | reset .. => some 0
  | _ => none

/-- What the disparity is before a byte is encoded. -/
def before? : Event → Option Int
  | minimized _ _ d => some d
  | _ => none

theorem append_blank_append (a b c : String) : a ++ (b ++ " ") ++ c = a ++ b ++ " " ++ c := by
  rw [← String.append_assoc]

theorem names_of_disparity? {ev : Event} {d : Int} (h : ev.disparity? = some d) :
    ev.entry.Names d := by
  cases ev with
  | emitted s d' =>
    obtain rfl := Option.some.inj h
    exact ⟨"emit " ++ s.text ++ ", cnt", append_blank_append ("emit " ++ s.text) ", cnt" _⟩
  | rolledBack d' =>
    obtain rfl := Option.some.inj h
    exact ⟨"write failed, roll cnt back to", rfl⟩
  | reset c d' =>
    obtain rfl := Option.some.inj h
    let front := "control period " ++ c.name ++ ", reset cnt " ++ toString d'
    have last : " -> 0" = " ->" ++ (" " ++ toString (0 : Int)) := by decide
    refine ⟨front ++ " ->", ?_⟩
    rw [String.append_assoc, String.append_assoc, ← last]
    rfl
  | _ => contradiction

theorem names_of_before? {ev : Event} {d : Int} (h : ev.before? = some d) :
    ev.entry.Names d := by
  cases ev with
  | minimized b m d' =>
    obtain rfl := Option.some.inj h
    let front := "data " ++ Numeral.hexByte b ++ " -> q_m " ++ Numeral.grouped 9 m.toNat ++ ", diff "
      ++ toString m.excess
    exact ⟨front ++ ", cnt", append_blank_append front ", cnt" _⟩
  | _ => contradiction

/-! ## How messages begin -/

/-- The words that the messages of an event begin with, in the events that tell of the work of an
encoder or a receiver. -/
def opening : Event → String
  | minimized .. => "data "
  | balanced .neutral => "balanced, send by operator"
  | balanced .invert => "would worsen disparity, invert"
  | balanced .keep => "send as is"
  | emitted .. => "emit "
  | reset .. => "control period "
  | rolledBack .. => "write failed, roll cnt back to "
  | decoded .. => "decode "
  | held .. => "hold half symbol 0x"
  | columnsFound .. => "fixture columns at ["
  | _ => ""

theorem opens_opening (ev : Event) : ev.entry.Opens ev.opening := by
  cases ev with
  | balanced c => cases c <;> exact List.prefix_rfl
  | notControl | loaded | deviated | allPassed | someFailed => exact List.nil_prefix
  | _ =>
    show _ <+: String.toList (_ ++ _)
    simp only [String.toList_append, List.append_assoc]
    exact List.prefix_append _ _

/-- Words that the message begins with go on with its opening, or the opening with them. -/
theorem prefix_or_prefix_opening {ev : Event} {words : String} (h : ev.entry.Opens words) :
    words.toList <+: ev.opening.toList ∨ ev.opening.toList <+: words.toList :=
  List.prefix_or_prefix_of_prefix h ev.opens_opening

/-- The message on a symbol begins with a bit. -/
theorem not_opens_notControl (s : Symbol) : ¬ (notControl s).entry.Opens "control period " := by
  rintro ⟨rest, h⟩
  obtain ⟨c, cs, hbits⟩ := List.exists_cons_of_ne_nil (Numeral.binary_ne_nil 10 s.toNat)
  have bit : Numeral.IsBit c := Numeral.isBit_of_mem_binary (hbits ▸ List.mem_cons_self)
  have head : (notControl s).entry.message.toList.head? = some c := by
    show (s.text ++ " is not a control symbol").toList.head? = some c
    rw [String.toList_append, List.head?_append, Symbol.text, Numeral.toList_grouped,
      (Numeral.ends_groupFours _).1, hbits]
    rfl
  rw [← h] at head
  obtain rfl : 'c' = c := by simpa using head
  obtain h | h := bit
  · exact absurd h (by decide)
  · exact absurd h (by decide)

theorem tellsByte_entry_iff (ev : Event) : ev.entry.TellsByte ↔ ev.before?.isSome := by
  constructor
  · rintro ⟨hlevel, hopens⟩
    have opening := prefix_or_prefix_opening hopens
    cases ev with
    | minimized => rfl
    | balanced c => cases c <;> simp [Event.opening] at opening
    | emitted | rolledBack | decoded | held => simp [Event.opening] at opening
    | _ => contradiction
  · intro h
    cases ev with
    | minimized b m d => exact ⟨rfl, opens_opening _⟩
    | _ => contradiction

theorem tellsDisparity_entry_iff (ev : Event) :
    ev.entry.TellsDisparity ↔ ev.disparity?.isSome := by
  constructor
  · rintro (⟨hlevel, hopens⟩ | ⟨hlevel, hopens⟩)
    · have opening := hopens.imp prefix_or_prefix_opening prefix_or_prefix_opening
      cases ev with
      | emitted | rolledBack => rfl
      | balanced c => cases c <;> simp [Event.opening] at opening
      | minimized | decoded | held => simp [Event.opening] at opening
      | _ => contradiction
    · have opening := prefix_or_prefix_opening hopens
      cases ev with
      | reset => rfl
      | notControl s => exact absurd hopens (not_opens_notControl s)
      | columnsFound => simp [Event.opening] at opening
      | _ => contradiction
  · intro h
    cases ev with
    | emitted s d => exact .inl ⟨rfl, .inl (opens_opening _)⟩
    | rolledBack d => exact .inl ⟨rfl, .inr (opens_opening _)⟩
    | reset c d => exact .inr ⟨rfl, opens_opening _⟩
    | _ => contradiction

/-! ## Whole logs -/

/-- The entries of one kind name, in order, what the events of this kind hold. -/
theorem forall₂_names {P : Entry → Prop} [DecidablePred P] {f : Event → Option Int}
    (tells : ∀ ev, P ev.entry ↔ (f ev).isSome)
    (names : ∀ {ev d}, f ev = some d → ev.entry.Names d) (log : List Event) :
    List.Forall₂ Entry.Names ((log.map entry).filter P) (log.filterMap f) := by
  induction log with
  | nil => exact .nil
  | cons ev log ih =>
    cases h : f ev with
    | none =>
      have other : ¬ P ev.entry := by rw [tells, h]; exact Bool.false_ne_true
      rw [List.map_cons, List.filter_cons_of_neg (by simpa using other), List.filterMap_cons_none h]
      exact ih
    | some d =>
      have kind : P ev.entry := by rw [tells, h]; rfl
      rw [List.map_cons, List.filter_cons_of_pos (by simpa using kind), List.filterMap_cons_some h]
      exact .cons (names h) ih

end Event

end LineCode
