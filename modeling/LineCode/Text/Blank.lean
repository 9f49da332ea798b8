/-!
# Blanks around a text

The characters of the Unicode property `White_Space`, the five bytes that are blank in every text
that extends ASCII, and what is left when they are dropped at both ends.
-/

namespace LineCode.Text

/-- The first and the last code point of each run of characters with the property `White_Space`. -/
def blankRanges : List (Nat × Nat) :=
  [(0x09, 0x0D), (0x20, 0x20), (0x85, 0x85), (0xA0, 0xA0), (0x1680, 0x1680), (0x2000, 0x200A),
    (0x2028, 0x2029), (0x202F, 0x202F), (0x205F, 0x205F), (0x3000, 0x3000)]

/-- Whether a character has the property `White_Space`. -/
def isBlank (c : Char) : Bool :=
  blankRanges.any fun (first, last) => first ≤ c.toNat && c.toNat ≤ last

/-- Whether a byte is a blank of ASCII: space, tabulator, line feed, form feed, carriage return. -/
def isBlankByte (b : UInt8) : Bool :=
  b == 0x20 || b == 0x09 || b == 0x0A || b == 0x0C || b == 0x0D

/-- What stands between the first and the last element that does not pass the test. -/
def stripBoth {α : Type} (p : α → Bool) (xs : List α) : List α :=
  ((xs.dropWhile p).reverse.dropWhile p).reverse

/-- The bytes without the blanks of ASCII at their ends. -/
def trimBytes (bytes : List UInt8) : List UInt8 :=
  stripBoth isBlankByte bytes

/-- The characters without the blanks at their ends. -/
def trimChars (cs : List Char) : List Char :=
  stripBoth isBlank cs

/-- The text without the blanks at its ends. -/
def trim (s : String) : String :=
  String.ofList (trimChars s.toList)

@[simp] theorem stripBoth_nil {α : Type} (p : α → Bool) : stripBoth p [] = [] := rfl

end LineCode.Text
