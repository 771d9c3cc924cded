/-
Module: Graft.Source.Span
Purpose: Places and stretches of a source text, counted in UTF-8 bytes.
Main exports: Position, Position.after, Span, Span.merge, Span.slice?
-/
import Graft.Text.Bytes

namespace Graft

/-- A place between two characters of a source: the bytes before it, and its line and column, both
counted from one. The column counts bytes. -/
structure Position where
  offset : Nat
  line : Nat
  column : Nat
deriving DecidableEq, Repr, Inhabited

namespace Position

/-- The place before the first character. -/
def start : Position := ⟨0, 1, 1⟩

/-- The place after one more character. A line feed starts a new line. -/
def next (p : Position) (c : Char) : Position :=
  if c = '\n' then
    ⟨p.offset + c.utf8Size, p.line + 1, 1⟩
  else
    ⟨p.offset + c.utf8Size, p.line, p.column + c.utf8Size⟩

/-- The place after a run of characters. -/
def after (p : Position) (text : List Char) : Position :=
  text.foldl next p

@[simp] theorem after_append (p : Position) (xs ys : List Char) :
    p.after (xs ++ ys) = (p.after xs).after ys := by
  simp [after]

/-- A place moves on by the bytes that are passed. -/
theorem offset_after (p : Position) (text : List Char) :
    (p.after text).offset = p.offset + Text.byteLength text := by
  induction text generalizing p with
  | nil => simp [after, Text.byteLength]
  | cons c rest ih =>
      have hnext : (p.next c).offset = p.offset + c.utf8Size := by
        unfold next; split <;> rfl
      have hstep : p.after (c :: rest) = (p.next c).after rest := rfl
      rw [hstep, ih, hnext, Text.byteLength, Nat.add_assoc]

end Position

/-- A stretch of a source: where it starts and how many bytes it covers. -/
structure Span where
  offset : Nat
  line : Nat
  column : Nat
  length : Nat
deriving DecidableEq, Repr, Inhabited

namespace Span

/-- The span of no particular place. -/
def nowhere : Span := ⟨0, 0, 0, 0⟩

/-- The empty span at a place. -/
def point (p : Position) : Span := ⟨p.offset, p.line, p.column, 0⟩

/-- The span from one place up to a later one. -/
def between (first last : Position) : Span :=
  ⟨first.offset, first.line, first.column, last.offset - first.offset⟩

/-- The byte after the last one covered. -/
def stop (s : Span) : Nat := s.offset + s.length

/-- A span that covers nothing. -/
def isEmpty (s : Span) : Bool := s.length == 0

/-- The empty span where `s` starts. -/
def head (s : Span) : Span := { s with length := 0 }

/-- The smallest span that covers both. Line and column are those of the one that starts first. -/
def merge (s t : Span) : Span :=
  let first := if s.offset ≤ t.offset then s else t
  { first with length := max s.stop t.stop - first.offset }

/-- The hull of a list of spans, merged from the left; nothing for the empty list. -/
def mergeAll? : List Span → Option Span
  | [] => none
  | s :: rest => some (rest.foldl merge s)

/-- The text a span covers; nothing if the span leaves the source or cuts a character. -/
def slice? (s : Span) (source : String) : Option String := do
  let (_, fromStart) ← Text.splitAtByte? s.offset source.toList
  let (covered, _) ← Text.splitAtByte? s.length fromStart
  return String.ofList covered

/-- A span is displayed as line and column. -/
def display (s : Span) : String := s!"{s.line}:{s.column}"

end Span

end Graft
