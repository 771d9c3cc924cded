/-
Module: Graft.Text.Blank
Purpose: The characters with the Unicode property White_Space.
Main exports: Text.isBlank, Text.trimStart
-/
import Graft.Text.Ranges

namespace Graft.Text

/-- The blank characters beyond ASCII, as inclusive ranges in increasing order. -/
def blankRanges : Array (Nat × Nat) := #[
  (0x85, 0x85), (0xA0, 0xA0), (0x1680, 0x1680), (0x2000, 0x200A), (0x2028, 0x2029),
  (0x202F, 0x202F), (0x205F, 0x205F), (0x3000, 0x3000)]

/-- A blank: the space and the controls from tab to carriage return in ASCII, the Unicode property
White_Space beyond. -/
def isBlank (c : Char) : Bool :=
  if c.val < 128 then c = ' ' || (9 ≤ c.val && c.val ≤ 13) else inRanges blankRanges c

/-- A text without its leading blanks. -/
def trimStart (text : List Char) : List Char :=
  text.dropWhile isBlank

end Graft.Text
