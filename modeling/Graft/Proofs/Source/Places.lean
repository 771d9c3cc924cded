/-
Module: Graft.Proofs.Source.Places
Purpose: What the offset, line and column of a place in a source say.
Main exports: Text.lastLine, Span.Covers, Span.Covers.slice?, Cursor.IsIn, Cursor.IsIn.covers

A cursor counts bytes, lines and columns one character at a time.  What it counts is said here of the
text before it as a whole: its bytes, its line feeds, and the bytes behind the last of them.
-/
import Mathlib.Data.List.Induction
import Graft.Source.Cursor

namespace Graft

namespace Text

/-- What stands behind the last line feed of a text. -/
def lastLine (text : List Char) : List Char := (text.reverse.takeWhile (· ≠ '\n')).reverse

theorem lastLine_concat (text : List Char) (c : Char) :
    lastLine (text ++ [c]) = if c = '\n' then [] else lastLine text ++ [c] := by
  unfold lastLine
  rw [List.reverse_append, List.reverse_singleton, List.singleton_append, List.takeWhile_cons]
  by_cases h : c = '\n'
  · simp [h]
  · simp [h]

/-- The last line of a text is a part of it. -/
theorem byteLength_lastLine_le (text : List Char) : byteLength (lastLine text) ≤ byteLength text := by
  have hsuffix : lastLine text <:+ text := by
    rw [← List.reverse_prefix, lastLine, List.reverse_reverse]
    exact List.takeWhile_prefix _
  obtain ⟨before, hbefore⟩ := hsuffix
  have hbytes : byteLength text = byteLength before + byteLength (lastLine text) := by
    rw [← byteLength_append, hbefore]
  rw [hbytes]
  exact Nat.le_add_left _ _

/-- A text has no more characters than bytes. -/
theorem length_le_byteLength (text : List Char) : text.length ≤ byteLength text := by
  induction text with
  | nil => exact Nat.le_refl _
  | cons c rest ih =>
      have hsize := c.utf8Size_pos
      rw [List.length_cons, byteLength]
      omega

theorem byteLength_le_of_prefix {text whole : List Char} (h : text <+: whole) :
    byteLength text ≤ byteLength whole := by
  obtain ⟨behind, rfl⟩ := h
  rw [byteLength_append]
  exact Nat.le_add_right _ _

/-- Of two beginnings of a text the one with fewer bytes is a beginning of the other. -/
theorem isPrefix_of_byteLength_le {text text' whole : List Char} (h : text <+: whole)
    (h' : text' <+: whole) (hle : byteLength text ≤ byteLength text') : text <+: text' := by
  rcases List.prefix_or_prefix_of_prefix h h' with hprefix | ⟨behind, rfl⟩
  · exact hprefix
  · -- nothing stands behind the longer beginning, since it has no more bytes
    rw [byteLength_append] at hle
    have hlength := length_le_byteLength behind
    obtain rfl : behind = [] := List.eq_nil_of_length_eq_zero (by omega)
    simp only [List.append_nil, List.prefix_refl]

end Text

/-! ### Positions -/

/-- A place is the one behind a text: as many bytes stand before it, as many line feeds, and on its line
as many bytes as behind the last of these. -/
structure Position.IsBehind (p : Position) (before : List Char) : Prop where
  offset : p.offset = Text.byteLength before
  line : p.line = 1 + before.count '\n'
  column : p.column = 1 + Text.byteLength (Text.lastLine before)

/-- Counting character by character gives the place behind a text. -/
theorem Position.isBehind_after (before : List Char) : (start.after before).IsBehind before := by
  induction before using List.reverseRecOn with
  | nil => exact ⟨rfl, rfl, rfl⟩
  | append_singleton text c ih =>
      rw [after_append]
      change ((start.after text).next c).IsBehind _
      unfold next
      by_cases h : c = '\n'
      · subst h
        rw [if_pos rfl]
        refine ⟨?_, ?_, ?_⟩
        · simp [ih.offset, Text.byteLength]
        · simp [ih.line, Nat.add_assoc]
        · simp [Text.lastLine_concat, Text.byteLength]
      · rw [if_neg h]
        refine ⟨?_, ?_, ?_⟩
        · simp [ih.offset, Text.byteLength]
        · simp [ih.line, h]
        · simp [ih.column, Text.lastLine_concat, h, Text.byteLength, Nat.add_assoc]

/-- Each number of a place is at most one more than the bytes before it. -/
theorem Position.IsBehind.le {p : Position} {before : List Char} (h : p.IsBehind before) :
    p.offset ≤ Text.byteLength before ∧ p.line ≤ Text.byteLength before + 1 ∧
      p.column ≤ Text.byteLength before + 1 := by
  have hlines : before.count '\n' ≤ Text.byteLength before :=
    Nat.le_trans List.count_le_length (Text.length_le_byteLength before)
  have hlast := Text.byteLength_lastLine_le before
  refine ⟨Nat.le_of_eq h.offset, ?_, ?_⟩
  · rw [h.line]
    omega
  · rw [h.column]
    omega

/-! ### Spans -/

/-- In a source a span covers exactly `text`, behind the characters `before`, and its line and column are
those of its first character. -/
structure Span.Covers (s : Span) (source before text : List Char) : Prop where
  inside : before ++ text <+: source
  offset : s.offset = Text.byteLength before
  length : s.length = Text.byteLength text
  line : s.line = 1 + before.count '\n'
  column : s.column = 1 + Text.byteLength (Text.lastLine before)

namespace Span.Covers

variable {s : Span} {source before text : List Char}

theorem stop (h : s.Covers source before text) : s.stop = Text.byteLength (before ++ text) := by
  rw [Span.stop, h.offset, h.length, Text.byteLength_append]

/-- A span that covers a text ends inside the source. -/
theorem stop_le (h : s.Covers source before text) : s.stop ≤ Text.byteLength source := by
  rw [h.stop]
  exact Text.byteLength_le_of_prefix h.inside

/-- What a span covers can be cut out. -/
theorem slice? {source : String} (h : s.Covers source.toList before text) :
    s.slice? source = some (String.ofList text) := by
  obtain ⟨behind, hsource⟩ := h.inside
  rw [Span.slice?, ← hsource, List.append_assoc, h.offset, Text.splitAtByte?_byteLength]
  change (Text.splitAtByte? s.length (text ++ behind)).bind _ = _
  rw [h.length, Text.splitAtByte?_byteLength]
  rfl

end Span.Covers

/-! ### Cursors -/

/-- A cursor stands in a source behind the characters `before`. -/
structure Cursor.IsIn (c : Cursor) (source before : List Char) : Prop where
  split : source = before ++ c.rest
  position : c.position = Position.start.after before

namespace Cursor

variable {c : Cursor} {source before : List Char}

theorem isIn_ofText (source : List Char) : (ofText source).IsIn source [] := ⟨rfl, rfl⟩

theorem IsIn.skip (h : c.IsIn source before) (n : Nat) :
    (c.skip n).IsIn source (before ++ c.rest.take n) where
  split := by rw [rest_skip, List.append_assoc, List.take_append_drop, h.split]
  position := by rw [position_skip, h.position, Position.after_append]

/-- Wherever a cursor stands it counts the text before it. -/
theorem IsIn.isBehind (h : c.IsIn source before) : c.position.IsBehind before := by
  rw [h.position]
  exact Position.isBehind_after before

/-- From one place up to a later one a cursor passes what the span between them covers. -/
theorem IsIn.covers (h : c.IsIn source before) {first stop : Nat} (hle : first ≤ stop) :
    (Span.between (c.skip first).position (c.skip stop).position).Covers source
      (before ++ c.rest.take first) ((c.rest.take stop).drop first) := by
  have hfirst := (h.skip first).isBehind
  have htake : (c.rest.take stop).take first = c.rest.take first := by
    rw [List.take_take, Nat.min_eq_left hle]
  have hstop : c.rest.take first ++ (c.rest.take stop).drop first = c.rest.take stop := by
    rw [← htake, List.take_append_drop]
  refine ⟨?_, hfirst.offset, ?_, hfirst.line, hfirst.column⟩
  · rw [List.append_assoc, hstop, h.split]
    exact (List.prefix_append_right_inj before).2 (List.take_prefix _ _)
  · have hbytes : Text.byteLength (before ++ c.rest.take stop) =
        Text.byteLength (before ++ c.rest.take first) +
          Text.byteLength ((c.rest.take stop).drop first) := by
      rw [← Text.byteLength_append, List.append_assoc, hstop]
    change (c.skip stop).position.offset - (c.skip first).position.offset = _
    rw [(h.skip stop).isBehind.offset, hfirst.offset, hbytes, Nat.add_sub_cancel_left]

end Cursor

end Graft
