/-
Module: Graft.Proofs.Parser.EscapeErrors
Purpose: Where errors about escapes point.
Main exports: Token.Fault, Token.uncounted, Token.fault_of_literalValue?, SourceFile.escapeError_exact

The place of a malformed escape is counted from the start of its literal, in the text that escapes are taken
from.  In a string with holes that text has one brace where two are written, so that the error points too far
to the front.  Its span covers two bytes, which is one character too few or half a character too many where
the one behind the backslash takes several.
-/
import Graft.Proofs.Literal.Malformed
import Graft.Proofs.Parser.Founded
import Graft.Proofs.Token.Literals
import Graft.Proofs.Token.Places

namespace Graft

open Graft.Parser (literalValue?)
open Literal (Delimits FirstBad bracePairs unescape)

/-! ### Faults -/

/-- The text of a literal is at fault from `behind` on: there is its first malformed escape or, if a
character literal has none and still does not stand for a single character, all of it. -/
inductive Token.Fault (t : Token) : List Char → List Char → Prop where
  | escape {opening front bad closing : List Char} (delimits : Delimits t.kind opening closing)
      (text : t.lexeme.toList = opening ++ (front ++ bad ++ closing)) (first : FirstBad (front ++ bad) bad) :
      Fault t (opening ++ front) (bad ++ closing)
  | whole {body value : List Char} (kind : t.kind = .charLiteral)
      (text : t.lexeme.toList = '\'' :: (body ++ ['\'']))
      (read : unescape 1 body = .ok value) (several : value.length ≠ 1) :
      Fault t [] ('\'' :: (body ++ ['\'']))

/-- How many braces before a fault are not counted: in a string with holes one of each pair. -/
def Token.uncounted (t : Token) (before : List Char) : Nat :=
  if t.kind = .interpolatedString then bracePairs before else 0

namespace Token.Fault

variable {t : Token} {before behind : List Char}

/-- Before and behind a fault stands all of the literal. -/
theorem lexeme (h : t.Fault before behind) : t.lexeme.toList = before ++ behind := by
  cases h with
  | escape _ text _ => rw [text, List.append_assoc, List.append_assoc]
  | whole _ text _ _ => exact text

/-- A fault starts with a backslash or with the quote of a character literal, and
more of the literal follows. -/
theorem exists_cons (h : t.Fault before behind) : ∃ first second more, behind = first :: second :: more ∧
    first.utf8Size = 1 := by
  cases h with
  | escape delimits _ first =>
      obtain ⟨_, back, -, rfl, -⟩ := first.exists_append
      obtain ⟨quote, more, rfl⟩ := delimits.exists_cons
      cases back with
      | nil => exact ⟨_, _, _, rfl, rfl⟩
      | cons c rest => exact ⟨_, _, _, rfl, rfl⟩
  | @whole body _ _ _ _ _ =>
      cases body with
      | nil => exact ⟨_, _, _, rfl, rfl⟩
      | cons c rest => exact ⟨_, _, _, rfl, rfl⟩

end Token.Fault

namespace Token

variable {t : Token} {opening closing body marks text : List Char} {n : Nat}

/-- Where nothing is left out of the text between the quotes, a malformed escape is counted to exactly. -/
theorem fault_of_unescape (delimits : Delimits t.kind opening closing) (plain : t.kind ≠ .interpolatedString)
    (lexeme : t.lexeme.toList = opening ++ (body ++ closing))
    (h : unescape (Text.byteLength opening) body = .error n) :
    ∃ before behind, t.Fault before behind ∧ n + t.uncounted before = Text.byteLength before := by
  obtain ⟨bad, hbad, hcount⟩ := Literal.unescape_error_iff.1 h
  obtain ⟨front, _, rfl, -, -⟩ := hbad.exists_append
  refine ⟨_, _, .escape delimits lexeme hbad, ?_⟩
  rw [uncounted, if_neg plain]
  rw [Text.byteLength_append] at hcount ⊢
  omega

/-- In a string with holes one brace of each pair before a malformed escape is not counted. -/
theorem fault_of_interpolated (kind : t.kind = .interpolatedString)
    (lexeme : t.lexeme.toList = marks ++ '"' :: (body ++ ['"']))
    (hmarks : ∀ c ∈ marks, Literal.isMark c = true) (plain : '@' ∉ marks)
    (braces : Literal.singleBraces? body = some text) (h : unescape (marks.length + 1) text = .error n) :
    ∃ before behind, t.Fault before behind ∧ n + t.uncounted before = Text.byteLength before := by
  obtain ⟨bad, hbad, hcount⟩ := Literal.unescape_error_iff.1 h
  obtain ⟨bad', hbad', hsame⟩ := hbad.spread braces
  obtain ⟨front, back, rfl, rfl, -⟩ := hbad'.exists_append
  have hbody := Literal.byteLength_of_singleBraces? braces
  have hrest := Literal.byteLength_of_singleBraces? hsame
  have hpairs := Literal.bracePairs_append (c := '\\') (by decide) front back
  obtain ⟨hbytes, hbraces⟩ := Literal.marks_plain hmarks
  have hopening : bracePairs (marks ++ ['"'] ++ front) = bracePairs front :=
    Literal.bracePairs_append_of_plain
      (List.forall_mem_append.2 ⟨hbraces, List.forall_mem_singleton.2 (by decide)⟩) front
  have delimits : Delimits t.kind (marks ++ ['"']) ['"'] := by
    rw [kind]
    exact .holes hmarks plain
  refine ⟨_, _, .escape delimits (lexeme.trans (by simp)) hbad', ?_⟩
  rw [uncounted, if_pos kind, hopening]
  rw [Text.byteLength_append] at hbody
  simp only [Text.byteLength_append, hbytes, show Text.byteLength ['"'] = 1 from rfl]
  omega

/-- A result that was mapped is an error if it was one before. -/
theorem eq_error_of_map {α β : Type} {result : Except Nat α} {g : Nat → ParseError} {f : α → β}
    {e : ParseError} (h : f <$> result.mapError g = .error e) : ∃ n, result = .error n ∧ e = g n := by
  cases result with
  | ok _ => cases h
  | error n => exact ⟨n, rfl, (Except.error.inj h).symm⟩

/-- What a literal reports about its escapes is its fault, but for the braces that are not counted. -/
theorem fault_of_literalValue? {source : String} (mem : t ∈ (TokenStream.ofText source).tokens)
    {e : ParseError} {lexeme : String} (h : literalValue? t = .error e)
    (cause : e.cause = .invalidEscape lexeme) :
    lexeme = t.lexeme ∧ ∃ before behind n, t.Fault before behind ∧
      n + t.uncounted before = Text.byteLength before ∧
      e.span = { t.span with offset := t.span.offset + n, column := t.span.column + n, length := 2 } := by
  unfold literalValue? at h
  dsimp only at h
  split at h
  · rename_i kind
    obtain ⟨n, hvalue, rfl⟩ := eq_error_of_map h
    obtain ⟨opening, body, closing, delimits, text⟩ := TokenStream.delimited _ t mem (.inl kind)
    have hdelimits := delimits
    rw [kind] at delimits
    cases delimits with
    | regular hsuffix =>
        rw [text] at hvalue
        obtain ⟨before, behind, hfault, hcount⟩ := fault_of_unescape hdelimits (by rw [kind]; decide) text
          ((Literal.regular_eq hsuffix).symm.trans hvalue)
        exact ⟨(ParseCause.invalidEscape.inj cause).symm, before, behind, n, hfault, hcount, rfl⟩
  · cases h
  · rename_i kind
    obtain ⟨n, hvalue, rfl⟩ := eq_error_of_map h
    obtain ⟨marks, body, text, hlexeme, hmarks, plain, braces, hread⟩ := Literal.interpolated_error hvalue
    obtain ⟨before, behind, hfault, hcount⟩ := fault_of_interpolated kind hlexeme hmarks plain braces hread
    exact ⟨(ParseCause.invalidEscape.inj cause).symm, before, behind, n, hfault, hcount, rfl⟩
  · split at h <;> cases h
  · rename_i kind
    obtain ⟨n, hvalue, rfl⟩ := eq_error_of_map h
    obtain ⟨opening, body, closing, delimits, text⟩ := TokenStream.delimited _ t mem (.inr kind)
    have hdelimits := delimits
    rw [kind] at delimits
    cases delimits with
    | character =>
        rw [text] at hvalue
        refine ⟨(ParseCause.invalidEscape.inj cause).symm, ?_⟩
        rcases Literal.character_error hvalue with hread | ⟨rfl, value, hread, several⟩
        · obtain ⟨before, behind, hfault, hcount⟩ :=
            fault_of_unescape hdelimits (by rw [kind]; decide) text hread
          exact ⟨before, behind, n, hfault, hcount, rfl⟩
        · refine ⟨[], _, 0, .whole kind text hread several, ?_, rfl⟩
          rw [uncounted, kind]
          rfl
  · split at h
    · cases h
    · obtain rfl := Except.error.inj h
      cases cause
  all_goals cases h

end Token

/-! ### Spans -/

/-- Two bytes from a character of one byte on can be cut out if the next character has one byte as well. -/
theorem Span.slice?_two {s : Span} {source : String} {front more : List Char} {first second : Char}
    (split : source.toList = front ++ first :: second :: more) (offset : s.offset = Text.byteLength front)
    (length : s.length = 2) (one : first.utf8Size = 1) :
    s.slice? source = if second.utf8Size = 1 then some (String.ofList [first, second]) else none := by
  have hpos := second.utf8Size_pos
  rw [Span.slice?, split, offset, Text.splitAtByte?_byteLength]
  change (Text.splitAtByte? s.length (first :: second :: more)).bind _ = _
  rw [length, Text.splitAtByte?, if_pos (by omega), one, Text.splitAtByte?]
  split
  · have hsize : 2 - 1 - second.utf8Size = 0 := by omega
    rw [if_pos (by omega), hsize, Text.splitAtByte?]
    rfl
  · rw [if_neg (by omega)]
    rfl

/-- At the span of an error a part of the source can be cut out, which starts at a place with a character. -/
structure ParseError.PointsTo (e : ParseError) (source : String) (place : Nat) (first : Char) : Prop where
  place : e.span.offset = place
  slice : ∃ more, e.span.slice? source = some (String.ofList (first :: more))

/-- Each error about an escape is that of a literal with a fault.  It points as many bytes before the fault
as there are braces that are not counted, and covers two bytes.  So it points to the fault exactly if there
are no such braces, and the second character of the fault has one byte. -/
theorem SourceFile.escapeError_exact (source : SourceId) (text : String) {e : ParseError} {lexeme : String}
    (mem : e ∈ (ofText source text).2) (cause : e.cause = .invalidEscape lexeme) :
    ∃ t ∈ (TokenStream.ofText text).tokens, t.lexeme = lexeme ∧ ∃ before first second more,
      t.Fault before (first :: second :: more) ∧ e.span.length = 2 ∧
      e.span.offset + t.uncounted before = t.span.offset + Text.byteLength before ∧
      (e.PointsTo text (t.span.offset + Text.byteLength before) first ↔
        t.uncounted before = 0 ∧ second.utf8Size = 1) := by
  obtain ⟨t, ht, hvalue⟩ := founded_ofText source text e mem (by rw [cause]; rfl)
  obtain ⟨rfl, before, behind, n, hfault, hcount, hspan⟩ := Token.fault_of_literalValue? ht hvalue cause
  obtain ⟨first, second, more, rfl, hone⟩ := hfault.exists_cons
  have hoffset : e.span.offset + t.uncounted before = t.span.offset + Text.byteLength before := by
    rw [hspan, ← hcount]
    exact Nat.add_assoc _ _ _
  have hlength : e.span.length = 2 := by rw [hspan]
  refine ⟨t, ht, rfl, before, first, second, more, hfault, hlength, hoffset, ?_⟩
  -- the fault is found in the source behind what stands before the literal
  obtain ⟨passed, hcovers⟩ := TokenStream.covers_of_mem_all (List.mem_append_left _ ht)
  obtain ⟨later, hsource⟩ := hcovers.inside
  have hsplit : text.toList = (passed ++ before) ++ first :: second :: (more ++ later) := by
    rw [← hsource, hfault.lexeme]
    simp
  have hslice : e.span.offset = t.span.offset + Text.byteLength before → e.span.slice? text = _ :=
    fun hplace =>
    Span.slice?_two hsplit (by rw [hplace, hcovers.offset, Text.byteLength_append]) hlength hone
  constructor
  · rintro ⟨hplace, rest, hrest⟩
    refine ⟨by omega, ?_⟩
    by_contra hwide
    rw [hslice hplace, if_neg hwide] at hrest
    cases hrest
  · rintro ⟨hnone, hnarrow⟩
    have hplace : e.span.offset = t.span.offset + Text.byteLength before := by omega
    exact ⟨hplace, [second], (hslice hplace).trans (if_pos hnarrow)⟩

namespace SourceFile

/-- A class with a string whose only escape is malformed. -/
def badEscape : String := "class C\x7bstring s=\"\\q\";\x7d"

/-- The same with two braces before the escape, in a string that may have holes. -/
def bracedEscape : String := "class C\x7bstring s=$\"\x7b\x7b\\q\";\x7d"

/-- The same with a character of two bytes behind the backslash. -/
def wideEscape : String := "class C\x7bstring s=\"\\é\";\x7d"

/-- What the error about a malformed escape says of the literal, and that there is one. -/
theorem escapeError_exact_badEscape : ∃ e ∈ (ofText ⟨0⟩ badEscape).2, e.cause = .invalidEscape "\"\\q\"" ∧
    ∃ t ∈ (TokenStream.ofText badEscape).tokens, t.lexeme = "\"\\q\"" ∧ ∃ before first second more,
      t.Fault before (first :: second :: more) ∧ e.span.length = 2 ∧
      e.span.offset + t.uncounted before = t.span.offset + Text.byteLength before ∧
      (e.PointsTo badEscape (t.span.offset + Text.byteLength before) first ↔
        t.uncounted before = 0 ∧ second.utf8Size = 1) := by
  have hmem : ⟨.invalidEscape "\"\\q\"", ⟨18, 1, 19, 2⟩⟩ ∈ (ofText ⟨0⟩ badEscape).2 := by decide +kernel
  exact ⟨_, hmem, rfl, escapeError_exact ⟨0⟩ badEscape hmem rfl⟩

/-- Behind a pair of braces the error about an escape points to a brace, and before a character of two bytes
nothing can be cut out at its span. -/
theorem escapeError_inexact :
    (∃ e ∈ (ofText ⟨0⟩ bracedEscape).2, e.cause = .invalidEscape "$\"\x7b\x7b\\q\"" ∧
      e.span.slice? bracedEscape = some "\x7b\\") ∧
    ∃ e ∈ (ofText ⟨0⟩ wideEscape).2, e.cause = .invalidEscape "\"\\é\"" ∧
    e.span.slice? wideEscape = none := by
  decide +kernel

end SourceFile

end Graft
