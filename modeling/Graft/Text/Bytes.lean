/-
Module: Graft.Text.Bytes
Purpose: Texts measured and cut in UTF-8 bytes.
Main exports: Text.byteLength, Text.splitAtByte?
-/

namespace Graft.Text

/-- The number of bytes of a text in UTF-8. -/
def byteLength : List Char → Nat
  | [] => 0
  | c :: rest => c.utf8Size + byteLength rest

@[simp] theorem byteLength_append (xs ys : List Char) :
    byteLength (xs ++ ys) = byteLength xs + byteLength ys := by
  induction xs with
  | nil => simp [byteLength]
  | cons c rest ih => simp [byteLength, ih, Nat.add_assoc]

/-- The bytes of a list of characters are those of the string it makes. -/
theorem byteLength_eq_utf8ByteSize (text : List Char) :
    byteLength text = (String.ofList text).utf8ByteSize := by
  have encoded : byteLength text = (text.flatMap String.utf8EncodeChar).length := by
    induction text with
    | nil => rfl
    | cons c rest ih => simp [byteLength, ih]
  simp [encoded, String.utf8ByteSize, List.utf8Encode]

/-- Cut a text after its first `count` bytes; `none` if it is shorter or the cut would fall inside a
character. -/
def splitAtByte? : Nat → List Char → Option (List Char × List Char)
  | 0, text => some ([], text)
  | _ + 1, [] => none
  | count + 1, c :: rest =>
      if c.utf8Size ≤ count + 1 then
        (splitAtByte? (count + 1 - c.utf8Size) rest).map fun (front, back) => (c :: front, back)
      else
        none

/-- A text is cut at the byte length of any of its beginnings. -/
theorem splitAtByte?_byteLength (front back : List Char) :
    splitAtByte? (byteLength front) (front ++ back) = some (front, back) := by
  induction front with
  | nil => simp [byteLength, splitAtByte?]
  | cons c rest ih =>
      obtain ⟨size, hsize⟩ := Nat.exists_eq_add_one_of_ne_zero (Nat.ne_of_gt c.utf8Size_pos)
      have hcount : byteLength (c :: rest) = (size + byteLength rest) + 1 := by
        simp only [byteLength]; omega
      rw [hcount, List.cons_append, splitAtByte?]
      have hle : c.utf8Size ≤ size + byteLength rest + 1 := by omega
      have hrest : size + byteLength rest + 1 - c.utf8Size = byteLength rest := by omega
      simp [hle, hrest, ih]

end Graft.Text
