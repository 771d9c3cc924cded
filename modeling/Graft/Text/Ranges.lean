/-
Module: Graft.Text.Ranges
Purpose: Membership of a character in a table of code point ranges.
Main exports: Text.inRanges
-/

namespace Graft.Text

/-- The code point of `c` lies in one of the inclusive ranges. -/
def inRanges (ranges : Array (Nat × Nat)) (c : Char) : Bool :=
  ranges.any fun range => range.1 ≤ c.toNat && c.toNat ≤ range.2

end Graft.Text
