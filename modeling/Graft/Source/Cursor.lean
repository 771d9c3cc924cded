/-
Module: Graft.Source.Cursor
Purpose: A reading position in a source together with the characters that follow it.
Main exports: Cursor, Cursor.advance, Cursor.skip, Cursor.lookingAt
-/
import Graft.Source.Span
import Graft.Text.Blank

namespace Graft

/-- A reading position: the characters still to come, where they start, and whether the current line
holds only blanks so far. -/
structure Cursor where
  rest : List Char
  position : Position
  lineIsBlank : Bool
deriving DecidableEq, Repr, Inhabited

namespace Cursor

/-- The cursor before the first character of a source. -/
def ofText (text : List Char) : Cursor := ⟨text, .start, true⟩

/-- Nothing is left to read. -/
def atEnd (c : Cursor) : Bool := c.rest.isEmpty

/-- The next character. -/
def peek? (c : Cursor) : Option Char := c.rest.head?

/-- The character `n` places ahead; the next one is at zero. -/
def peekAt? (c : Cursor) (n : Nat) : Option Char := c.rest[n]?

/-- The characters to come start with `text`. -/
def lookingAt (c : Cursor) (text : List Char) : Bool := text.isPrefixOf c.rest

/-- Pass one character; at the end the cursor stays. -/
def advance (c : Cursor) : Cursor :=
  match c.rest with
  | [] => c
  | x :: rest => ⟨rest, c.position.next x, x = '\n' || (c.lineIsBlank && Text.isBlank x)⟩

/-- Pass up to `n` characters. -/
def skip : Cursor → Nat → Cursor
  | c, 0 => c
  | c, n + 1 => skip c.advance n

/-- The run of characters ahead that satisfy `p`. -/
def run (c : Cursor) (p : Char → Bool) : List Char := c.rest.takeWhile p

/-- The span of the next `n` characters. -/
def spanOf (c : Cursor) (n : Nat) : Span := .between c.position (c.skip n).position

/-- Skipping passes exactly the characters skipped. -/
theorem rest_skip (n : Nat) (c : Cursor) : (c.skip n).rest = c.rest.drop n := by
  induction n generalizing c with
  | zero => simp [skip]
  | succ n ih =>
      rw [skip, ih]
      unfold advance
      split <;> simp_all

/-- Skipping moves the position past the characters skipped. -/
theorem position_skip (n : Nat) (c : Cursor) :
    (c.skip n).position = c.position.after (c.rest.take n) := by
  induction n generalizing c with
  | zero => simp [skip, Position.after]
  | succ n ih =>
      rw [skip, ih]
      unfold advance
      split <;> simp_all [Position.after]

end Cursor

end Graft
