/-!
# Bytes as text

A cell of a table is read as UTF-8.  Where its bytes are no such text, a message names how many of
them, from the start, still were.
-/

namespace LineCode.Text

/-- The index that reading whole characters from index `i` on comes to. -/
def validFrom (bytes : ByteArray) (i : Nat) : Nat :=
  if _h : i < bytes.size then
    match bytes.utf8DecodeChar? i with
    | some c => validFrom bytes (i + c.utf8Size)
    | none => i
  else i
termination_by bytes.size - i
decreasing_by have := c.utf8Size_pos; omega

/-- The length of the longest prefix that consists of whole characters. -/
def validLength (bytes : List UInt8) : Nat :=
  validFrom ⟨bytes.toArray⟩ 0

/-- The text that the bytes spell, if they do, and else the length of their valid prefix. -/
def decode (bytes : List UInt8) : Except Nat String :=
  match String.fromUTF8? ⟨bytes.toArray⟩ with
  | some s => .ok s
  | none => .error (validLength bytes)

/-- The bytes that spell a text. -/
def encode (s : String) : List UInt8 :=
  s.toUTF8.data.toList

/-- What was written is read back. -/
@[simp] theorem decode_encode (s : String) : decode (encode s) = .ok s := by
  have h : String.fromUTF8? s.toUTF8 = some s := by
    simp only [String.fromUTF8?, String.toUTF8_eq_toByteArray, dif_pos s.isValidUTF8]
    rfl
  rw [decode, encode, Array.toArray_toList, h]

end LineCode.Text
