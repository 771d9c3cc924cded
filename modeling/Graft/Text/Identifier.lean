/-
Module: Graft.Text.Identifier
Purpose: The characters that identifiers are made of.
Main exports: Text.isIdentStart, Text.isIdentContinue
-/
import Graft.Text.Letter
import Graft.Text.Numeral

namespace Graft.Text

/-- A character that an identifier may start with. -/
def isIdentStart (c : Char) : Bool := isLetter c || c = '_'

/-- A character that an identifier may go on with. -/
def isIdentContinue (c : Char) : Bool := isLetter c || isNumeral c || c = '_'

/-- What may start an identifier may also stand inside one. -/
theorem isIdentContinue_of_isIdentStart {c : Char} (h : isIdentStart c = true) :
    isIdentContinue c = true := by
  simp only [isIdentStart, isIdentContinue, Bool.or_eq_true] at h ⊢
  rcases h with h | h
  · exact .inl (.inl h)
  · exact .inr h

end Graft.Text
