/-
Module: Graft.Token.Lexer
Purpose: The tokens of a source.
Main exports: Piece.ofText, TokenStream, TokenStream.ofText

Blanks, comments and lines that start with `#` separate tokens and are not kept.  A piece that
cannot be read is reported and passed, so every source has tokens up to its end.
-/
import Graft.Source.Cursor
import Graft.Token.Basic
import Graft.Literal.Extent
import Graft.Literal.Number
import Graft.Token.Operator

namespace Graft

open Number (runLength)

/-- A fault in a piece of text, from one character of the piece up to another. -/
structure Fault where
  cause : LexCause
  first : Nat
  stop : Nat
deriving DecidableEq, Repr, Inhabited

/-- What stands at the start of a text: how many characters it covers, the class of its token (none
for a comment, a directive or an unreadable piece) and what is wrong with it. -/
structure Piece where
  count : Nat
  kind? : Option TokenKind
  faults : List Fault
deriving DecidableEq, Repr, Inhabited

namespace Piece

/-- A piece that is passed without a token. -/
def separator (count : Nat) : Piece := ⟨count, none, []⟩

/-- A piece that is a sound token. -/
def token (kind : TokenKind) (count : Nat) : Piece := ⟨count, some kind, []⟩

/-- A piece that is as a whole unreadable. -/
def broken (cause : LexCause) (count : Nat) : Piece := ⟨count, none, [⟨cause, 0, count⟩]⟩

/-- The rest of the line, without its line feed. -/
def line (text : List Char) : Piece := separator (runLength (· ≠ '\n') text)

/-- The length of a block comment after its opening, and whether it is closed. -/
def commentLength : List Char → Nat × Bool
  | [] => (0, false)
  | '*' :: '/' :: _ => (2, true)
  | _ :: rest => let (count, closed) := commentLength rest; (count + 1, closed)

/-- A block comment. -/
def comment (text : List Char) : Piece :=
  let (count, closed) := commentLength (text.drop 2)
  if closed then separator (count + 2) else broken .unterminatedComment (count + 2)

/-- The class of a string that is not raw. -/
def stringKind (verbatim holes : Bool) : TokenKind :=
  if holes then .interpolatedString else if verbatim then .verbatimString else .stringLiteral

/-- A string whose opening quote comes after `marks`. -/
def string (marks : Literal.Marks) (text : List Char) : Piece :=
  let afterQuote := text.drop (marks.count + 1)
  let inside := Literal.opened marks.verbatim marks.holes afterQuote
  let extent := Literal.reach [.fresh inside] (marks.count + 1) afterQuote
  let cuts := extent.cuts.map fun cut => ⟨.unterminatedChar, cut.first, cut.stop⟩
  if extent.closed then
    let kind := match inside with
      | .quotes _ => .rawString
      | _ => stringKind marks.verbatim marks.holes
    ⟨extent.count + Literal.suffixLength (text.drop extent.count), some kind, cuts⟩
  else
    ⟨extent.count, none, cuts ++ [⟨.unterminatedString, 0, extent.count⟩]⟩

/-- A character literal.  It may hold any number of characters. -/
def char (text : List Char) : Piece :=
  let extent := Literal.reach [.fresh (.char 0)] 1 (text.drop 1)
  if extent.closed then token .charLiteral extent.count
  else broken .unterminatedChar extent.count

/-- The length of an identifier. -/
def identifierLength (text : List Char) : Nat := runLength Text.isIdentContinue text

/-- A word: reserved, or an identifier. -/
def word (text : List Char) : Piece :=
  let count := identifierLength text
  let word := String.ofList (text.take count)
  token ((Keyword.kind? word).getD .identifier) count

/-- A piece that starts with `@` or `$`: an identifier after a single `@`, or a string. -/
def marked (first : Char) (rest : List Char) : Piece :=
  if first = '@' && rest.head?.any Text.isIdentStart then
    token .identifier (1 + identifierLength rest)
  else
    let marks := Literal.readMarks ⟨0, false, false⟩ (first :: rest)
    if ((first :: rest).drop marks.count).head? = some '"' then string marks (first :: rest)
    else broken (.unexpectedChar first) marks.count

/-- The token at the start of the text `first :: rest`. -/
def scan (first : Char) (rest : List Char) : Piece :=
  let text := first :: rest
  if first = '"' then string ⟨0, false, false⟩ text
  else if first = '\'' then char text
  else if first = '@' || first = '$' then marked first rest
  else if Number.starts text then
    let extent := Number.extent text
    token (if extent.isReal then .realLiteral else .intLiteral) extent.count
  else if Text.isIdentStart first then word text
  else
    match Operator.match? text with
    | some (lexeme, kind) => token kind lexeme.length
    | none => broken (.unexpectedChar first) 1

/-- The piece at the start of a text.  `lineIsBlank` says that only blanks stand before it on its
line, where `#` starts a directive. -/
def ofText (lineIsBlank : Bool) (first : Char) (rest : List Char) : Piece :=
  let text := first :: rest
  if ['/', '/'].isPrefixOf text then line text
  else if ['/', '*'].isPrefixOf text then comment text
  else if first = '#' && lineIsBlank then line text
  else scan first rest

theorem count_string_pos (marks : Literal.Marks) (text : List Char) :
    0 < (string marks text).count := by
  have h := Literal.le_count_reach
    [.fresh (Literal.opened marks.verbatim marks.holes (text.drop (marks.count + 1)))]
    (marks.count + 1) (text.drop (marks.count + 1))
  unfold string
  dsimp only
  split <;> dsimp only <;> omega

theorem count_char_pos (text : List Char) : 0 < (char text).count := by
  have h := Literal.le_count_reach [.fresh (.char 0)] 1 (text.drop 1)
  unfold char
  dsimp only
  split <;> simp only [token, broken] <;> omega

theorem count_marked_pos {first : Char} {rest : List Char} (h : first = '@' ∨ first = '$') :
    0 < (marked first rest).count := by
  unfold marked
  split
  · simp only [token]; omega
  · dsimp only
    split
    · exact count_string_pos _ _
    · simp only [broken]
      rcases h with rfl | rfl
      · have := Literal.le_count_readMarks ⟨1, true, false⟩ rest
        simpa [Literal.readMarks] using Nat.lt_of_succ_le this
      · have := Literal.le_count_readMarks ⟨1, false, true⟩ rest
        simpa [Literal.readMarks] using Nat.lt_of_succ_le this

theorem count_scan_pos (first : Char) (rest : List Char) : 0 < (scan first rest).count := by
  unfold scan
  dsimp only
  split
  · exact count_string_pos _ _
  split
  · exact count_char_pos _
  split
  · rename_i h
    exact count_marked_pos (by simpa using h)
  split
  · rename_i h
    exact Number.extent_pos h
  split
  · rename_i h
    exact Number.runLength_pos (Text.isIdentContinue_of_isIdentStart h)
  split
  · rename_i h
    exact Operator.length_pos_of_mem_table _ (Operator.of_match?_eq_some h).1
  · exact Nat.one_pos

/-- Every piece covers at least one character. -/
theorem count_ofText_pos (lineIsBlank : Bool) (first : Char) (rest : List Char) :
    0 < (ofText lineIsBlank first rest).count := by
  unfold ofText
  dsimp only
  split
  · rename_i h
    have hfirst : first = '/' := by
      have := (List.isPrefixOf_iff_prefix.1 h)
      simpa [eq_comm] using (List.cons_prefix_cons.1 this).1
    subst hfirst
    simp [line, separator, runLength]
  split
  · unfold comment
    dsimp only
    split <;> simp [separator, broken]
  split
  · rename_i h
    have hfirst : first = '#' := by simp_all
    subst hfirst
    simp [line, separator, runLength]
  · exact count_scan_pos first rest

end Piece

/-- The tokens of a source in order, without the one that marks its end; what could not be read;
and where the source ends. -/
structure TokenStream where
  tokens : List Token
  errors : List LexError
  stop : Position
deriving DecidableEq, Repr, Inhabited

namespace TokenStream

/-- The length of what may stand before a piece: a byte order mark, then blanks. -/
def leadLength (text : List Char) : Nat :=
  let mark := if text.head? = some '\ufeff' then 1 else 0
  mark + runLength Text.isBlank (text.drop mark)

/-- The token of the next `count` characters. -/
def tokenAt (c : Cursor) (count : Nat) (kind : TokenKind) : Token :=
  ⟨kind, String.ofList (c.rest.take count), c.spanOf count⟩

/-- The error that a fault in the piece at a cursor makes. -/
def errorAt (c : Cursor) (fault : Fault) : LexError :=
  ⟨fault.cause, .between (c.skip fault.first).position (c.skip fault.stop).position⟩

/-- The tokens from a cursor on. -/
def ofCursor (before : Cursor) : TokenStream :=
  let c := before.skip (leadLength before.rest)
  match _h : c.rest with
  | [] => ⟨[], [], c.position⟩
  | first :: rest =>
      let piece := Piece.ofText c.lineIsBlank first rest
      let later := ofCursor (c.skip piece.count)
      ⟨(piece.kind?.map (tokenAt c piece.count)).toList ++ later.tokens,
        piece.faults.map (errorAt c) ++ later.errors, later.stop⟩
termination_by before.rest.length
decreasing_by
  have hpos :=
    Piece.count_ofText_pos (before.skip (leadLength before.rest)).lineIsBlank first rest
  have hrest : (before.rest.drop (leadLength before.rest)) = first :: rest := by
    rw [← Cursor.rest_skip]; exact _h
  have hlength := congrArg List.length hrest
  rw [Cursor.rest_skip, _h]
  simp only [List.length_drop, List.length_cons] at hlength ⊢
  omega

/-- The tokens of a source. -/
def ofText (source : String) : TokenStream := ofCursor (.ofText source.toList)

/-- All tokens, with the one that marks the end. -/
def all (stream : TokenStream) : List Token := stream.tokens ++ [.endOfFile stream.stop]

end TokenStream

end Graft
