import Mathlib.Data.List.TakeWhile
import LineCode.Text.Blank
import LineCode.Text.Utf8

/-!
# Trimming before and after decoding

A character of ASCII is one byte below 128, and any other character consists of bytes from 128 on.
So the bytes of a text can be stripped of the blanks of ASCII before they are read: what is left is
the text without these, and trimming it has the same result as trimming the whole.
-/

namespace LineCode.Text

/-! ## Stripping -/

section Strip

variable {α : Type} {p q : α → Bool}

/-- What stands around is stripped off. -/
theorem stripBoth_append {before after : List α} (hb : ∀ x ∈ before, p x) (ha : ∀ x ∈ after, p x)
    (xs : List α) : stripBoth p (before ++ xs ++ after) = stripBoth p xs := by
  rw [List.append_assoc, stripBoth, List.dropWhile_append_of_pos hb, List.dropWhile_append]
  split
  · rename_i none
    rw [stripBoth, List.dropWhile_eq_nil_iff.mpr ha, List.isEmpty_iff.mp none]
  · rw [List.reverse_append, List.dropWhile_append_of_pos (by simpa using ha), stripBoth]

theorem stripBoth_eq_self {xs : List α} (h : ∀ x ∈ xs, ¬ p x) : stripBoth p xs = xs := by
  have keeps : ∀ ys : List α, (∀ x ∈ ys, ¬ p x) → ys.dropWhile p = ys := fun ys hys =>
    List.dropWhile_eq_self_iff.mpr fun hl => hys _ (List.getElem_mem hl)
  rw [stripBoth, keeps xs h, keeps xs.reverse (by simpa using h), List.reverse_reverse]

/-- What is stripped off stands around. -/
theorem exists_append_stripBoth (p : α → Bool) (xs : List α) :
    ∃ before after, xs = before ++ stripBoth p xs ++ after ∧ (∀ x ∈ before, p x) ∧
      ∀ x ∈ after, p x := by
  refine ⟨xs.takeWhile p, ((xs.dropWhile p).reverse.takeWhile p).reverse, ?_,
    fun x hx => List.mem_takeWhile_imp hx,
    fun x hx => List.mem_takeWhile_imp (List.mem_reverse.mp hx)⟩
  rw [stripBoth, List.append_assoc, ← List.reverse_append, List.takeWhile_append_dropWhile,
    List.reverse_reverse, List.takeWhile_append_dropWhile]

/-- Stripping off less before does not change what is left. -/
theorem stripBoth_stripBoth (h : ∀ x, q x → p x) (xs : List α) :
    stripBoth p (stripBoth q xs) = stripBoth p xs := by
  obtain ⟨before, after, split, hb, ha⟩ := exists_append_stripBoth q xs
  calc stripBoth p (stripBoth q xs)
      = stripBoth p (before ++ stripBoth q xs ++ after) :=
        (stripBoth_append (fun x hx => h x (hb x hx)) (fun x hx => h x (ha x hx)) _).symm
    _ = stripBoth p xs := by rw [← split]

/-- What is stripped ends at its last element. -/
theorem dropWhile_reverse_stripBoth (p : α → Bool) (xs : List α) :
    (stripBoth p xs).reverse.dropWhile p = (stripBoth p xs).reverse := by
  rw [stripBoth, List.reverse_reverse, List.dropWhile_eq_self_iff]
  exact List.dropWhile_get_zero_not _ _

/-- In front of a stripped list only blanks before an element that is none are stripped off. -/
theorem stripBoth_append_cons_stripBoth {x : α} (hx : ¬ p x) (before xs : List α) :
    stripBoth p (before ++ x :: stripBoth p xs) = before.dropWhile p ++ x :: stripBoth p xs := by
  have front : (before ++ x :: stripBoth p xs).dropWhile p
      = before.dropWhile p ++ x :: stripBoth p xs := by
    rw [List.dropWhile_append]
    split
    · rename_i none
      rw [List.isEmpty_iff.mp none, List.dropWhile_cons_of_neg hx, List.nil_append]
    · rfl
  have back : (before.dropWhile p ++ x :: stripBoth p xs).reverse.dropWhile p
      = (before.dropWhile p ++ x :: stripBoth p xs).reverse := by
    rw [List.reverse_append, List.reverse_cons, List.append_assoc, List.dropWhile_append,
      dropWhile_reverse_stripBoth]
    split
    · rename_i none
      rw [List.isEmpty_iff.mp none, List.nil_append, List.singleton_append,
        List.dropWhile_cons_of_neg hx]
    · rfl
  rw [stripBoth, front, back, List.reverse_reverse]

/-! ## Stripping what elements stand for -/

variable {β : Type} {f : α → List β} {r : β → Bool}

theorem dropWhile_flatMap (hq : ∀ a, q a → ∀ b ∈ f a, r b)
    (hn : ∀ a, ¬ q a → f a ≠ [] ∧ ∀ b ∈ f a, ¬ r b) (xs : List α) :
    (xs.flatMap f).dropWhile r = (xs.dropWhile q).flatMap f := by
  induction xs with
  | nil => rfl
  | cons a xs ih =>
    rw [List.flatMap_cons]
    by_cases ha : q a
    · rw [List.dropWhile_append_of_pos (hq a ha), ih, List.dropWhile_cons_of_pos ha]
    · obtain ⟨some, all⟩ := hn a ha
      obtain ⟨b, bs, hb⟩ := List.exists_cons_of_ne_nil some
      rw [List.dropWhile_cons_of_neg ha, List.flatMap_cons, hb, List.cons_append,
        List.dropWhile_cons_of_neg (all b (by simp [hb]))]

/-- Elements stand for what is stripped off or for nothing of it. -/
theorem stripBoth_flatMap (hq : ∀ a, q a → ∀ b ∈ f a, r b)
    (hn : ∀ a, ¬ q a → f a ≠ [] ∧ ∀ b ∈ f a, ¬ r b) (xs : List α) :
    stripBoth r (xs.flatMap f) = (stripBoth q xs).flatMap f := by
  rw [stripBoth, dropWhile_flatMap hq hn, List.reverse_flatMap,
    dropWhile_flatMap (q := q) (by simpa using hq) (by simpa using hn), List.reverse_flatMap, stripBoth]
  simp [Function.comp_def]

end Strip

/-! ## Bytes of characters -/

theorem encode_eq_flatMap (s : String) : encode s = s.toList.flatMap String.utf8EncodeChar := by
  rw [encode, String.toUTF8_eq_toByteArray, ← String.utf8Encode_toList, List.utf8Encode]
  exact List.toList_data_toByteArray

theorem encode_ofList (cs : List Char) :
    encode (String.ofList cs) = cs.flatMap String.utf8EncodeChar := by
  rw [encode_eq_flatMap, String.toList_ofList]

/-- Bytes that are a text are the bytes of that text. -/
theorem encode_of_decode {bytes : List UInt8} {s : String} (h : decode bytes = .ok s) :
    encode s = bytes := by
  unfold decode at h
  split at h
  · rename_i found
    obtain rfl := Except.ok.inj h
    unfold String.fromUTF8? at found
    split at found
    · obtain rfl := Option.some_inj.mp found
      rfl
    · contradiction
  · contradiction

/-- A character of ASCII is one byte. -/
theorem utf8EncodeChar_of_lt {c : Char} (h : c.toNat < 128) :
    String.utf8EncodeChar c = [UInt8.ofNat c.toNat] :=
  if_pos (Nat.le_of_lt_succ h)

/-- The bytes of any other character are not those of ASCII. -/
theorem le_of_mem_utf8EncodeChar {c : Char} (h : 128 ≤ c.toNat) :
    ∀ b ∈ String.utf8EncodeChar c, 128 ≤ b.toNat := by
  have above : ¬ c.val.toNat ≤ 0x7F := by
    have : c.toNat = c.val.toNat := rfl
    omega
  intro b hb
  rw [String.utf8EncodeChar] at hb
  simp only [if_neg above] at hb
  split at hb
  · simp only [List.mem_cons, List.not_mem_nil, or_false] at hb
    rcases hb with rfl | rfl <;> rw [UInt8.toNat_ofNat'] <;> omega
  split at hb
  · simp only [List.mem_cons, List.not_mem_nil, or_false] at hb
    rcases hb with rfl | rfl | rfl <;> rw [UInt8.toNat_ofNat'] <;> omega
  · simp only [List.mem_cons, List.not_mem_nil, or_false] at hb
    rcases hb with rfl | rfl | rfl | rfl <;> rw [UInt8.toNat_ofNat'] <;> omega

/-- A byte of ASCII in a text is a character of it. -/
theorem exists_char_of_mem_encode {s : String} {b : UInt8} (hb : b ∈ encode s) (h : b.toNat < 128) :
    ∃ c ∈ s.toList, c.toNat = b.toNat := by
  rw [encode_eq_flatMap, List.mem_flatMap] at hb
  obtain ⟨c, hc, hb⟩ := hb
  refine ⟨c, hc, ?_⟩
  by_cases ascii : c.toNat < 128
  · rw [utf8EncodeChar_of_lt ascii, List.mem_singleton] at hb
    rw [hb, UInt8.toNat_ofNat']
    omega
  · have := le_of_mem_utf8EncodeChar (Nat.le_of_not_lt ascii) b hb
    omega

/-! ## Trimming -/

theorem toList_trim (s : String) : (trim s).toList = trimChars s.toList :=
  String.toList_ofList

/-- Whether a character is a blank of ASCII. -/
def isAsciiBlank (c : Char) : Bool :=
  c.toNat < 128 && isBlankByte (UInt8.ofNat c.toNat)

theorem isBlankByte_cases {b : UInt8} (h : isBlankByte b) :
    b = 0x20 ∨ b = 0x09 ∨ b = 0x0A ∨ b = 0x0C ∨ b = 0x0D := by
  simpa only [isBlankByte, Bool.or_eq_true, beq_iff_eq, or_assoc] using h

/-- The blanks of ASCII are blanks. -/
theorem isBlank_of_isAsciiBlank {c : Char} (h : isAsciiBlank c) : isBlank c := by
  have table : ∀ n < 128, isBlankByte (UInt8.ofNat n) → isBlank (Char.ofNat n) := by decide
  rw [isAsciiBlank, Bool.and_eq_true, decide_eq_true_eq] at h
  rw [← Char.ofNat_toNat c]
  exact table _ h.1 h.2

/-- The bytes of a text, stripped, are the text stripped. -/
theorem trimBytes_encode (s : String) :
    trimBytes (encode s) = encode (String.ofList (stripBoth isAsciiBlank s.toList)) := by
  rw [trimBytes, encode_eq_flatMap, encode_ofList]
  refine stripBoth_flatMap ?_ ?_ _
  · intro c hc b hb
    rw [isAsciiBlank, Bool.and_eq_true, decide_eq_true_eq] at hc
    rw [utf8EncodeChar_of_lt hc.1, List.mem_singleton] at hb
    rw [hb]
    exact hc.2
  · intro c hc
    refine ⟨String.utf8EncodeChar_ne_nil, fun b hb blank => ?_⟩
    by_cases ascii : c.toNat < 128
    · rw [utf8EncodeChar_of_lt ascii, List.mem_singleton] at hb
      exact hc (by rw [isAsciiBlank, decide_eq_true ascii, Bool.true_and, ← hb]; exact blank)
    · have := le_of_mem_utf8EncodeChar (Nat.le_of_not_lt ascii) b hb
      rcases isBlankByte_cases blank with rfl | rfl | rfl | rfl | rfl <;> contradiction

/-- Blanks of ASCII that are stripped off early make no difference. -/
theorem trim_stripBoth_isAsciiBlank (s : String) :
    trim (String.ofList (stripBoth isAsciiBlank s.toList)) = trim s := by
  rw [trim, trim, String.toList_ofList, trimChars, trimChars,
    stripBoth_stripBoth fun c => isBlank_of_isAsciiBlank]

/-- What stands between blanks is the trimmed text, if it has none itself. -/
theorem trim_eq {s : String} {before inner after : List Char}
    (split : s.toList = before ++ inner ++ after) (hb : ∀ c ∈ before, isBlank c)
    (ha : ∀ c ∈ after, isBlank c) (hi : ∀ c ∈ inner, ¬ isBlank c) :
    trim s = String.ofList inner := by
  rw [trim, trimChars, split, stripBoth_append hb ha, stripBoth_eq_self hi]

/-- Blanks of ASCII are the bytes of blanks. -/
theorem exists_blanks {bytes : List UInt8} (h : ∀ b ∈ bytes, isBlankByte b) :
    ∃ cs : List Char, cs.flatMap String.utf8EncodeChar = bytes ∧ ∀ c ∈ cs, isBlank c := by
  induction bytes with
  | nil => exact ⟨[], rfl, by simp⟩
  | cons b bytes ih =>
    obtain ⟨blank, blanks⟩ := List.forall_mem_cons.mp h
    obtain ⟨cs, spelled, all⟩ := ih blanks
    obtain ⟨c, hc, isBlank⟩ : ∃ c, String.utf8EncodeChar c = [b] ∧ isBlank c := by
      rcases isBlankByte_cases blank with rfl | rfl | rfl | rfl | rfl
      · exact ⟨' ', rfl, by decide⟩
      · exact ⟨'\t', rfl, by decide⟩
      · exact ⟨'\n', rfl, by decide⟩
      · exact ⟨'\x0c', rfl, by decide⟩
      · exact ⟨'\r', rfl, by decide⟩
    refine ⟨c :: cs, ?_, List.forall_mem_cons.mpr ⟨isBlank, all⟩⟩
    rw [List.flatMap_cons, hc, spelled, List.singleton_append]

/-- Bytes that are a text once the blanks of ASCII are stripped off were one before, with the same
text between its blanks. -/
theorem exists_decode_of_trimBytes {bytes : List UInt8} {s : String}
    (h : decode (trimBytes bytes) = .ok s) :
    ∃ content, decode bytes = .ok content ∧ trim content = trim s := by
  obtain ⟨before, after, split, hb, ha⟩ := exists_append_stripBoth isBlankByte bytes
  obtain ⟨front, spellsBefore, blankFront⟩ := exists_blanks hb
  obtain ⟨back, spellsAfter, blankBack⟩ := exists_blanks ha
  refine ⟨String.ofList (front ++ s.toList ++ back), ?_, ?_⟩
  · have spells : encode (String.ofList (front ++ s.toList ++ back)) = bytes := by
      rw [encode_ofList, List.flatMap_append, List.flatMap_append, spellsBefore, spellsAfter,
        ← encode_eq_flatMap, encode_of_decode h]
      exact split.symm
    rw [← spells, decode_encode]
  · rw [trim, trim, String.toList_ofList, trimChars, trimChars,
      stripBoth_append blankFront blankBack]

end LineCode.Text
