/-
Module: Graft.Literal.Text
Purpose: The values of string and character literals.
Main exports: Literal.regular, Literal.verbatim, Literal.interpolated, Literal.raw?, Literal.character

Each function takes the exact text of a token.  An error is the place in bytes of the escape that is
at fault, counted from the start of the token.
-/
import Graft.Literal.Escape
import Graft.Text.Blank

namespace Graft.Literal

/-- A text without a given ending; nothing if it ends otherwise. -/
def dropEnding? (ending text : List Char) : Option (List Char) :=
  if ending.isSuffixOf text then some (text.take (text.length - ending.length)) else none

/-- A text without a given beginning; nothing if it starts otherwise. -/
def dropBeginning? (beginning text : List Char) : Option (List Char) :=
  if beginning.isPrefixOf text then some (text.drop beginning.length) else none

/-- A literal without the suffix that asks for UTF-8. -/
def withoutSuffix (lexeme : List Char) : List Char :=
  (dropEnding? ['u', '8'] lexeme <|> dropEnding? ['U', '8'] lexeme).getD lexeme

/-- What stands between an opening and a closing mark. -/
def between? (opening closing lexeme : List Char) : Option (List Char) :=
  dropBeginning? opening lexeme >>= dropEnding? closing

/-- Two quotes in a row stand for one. -/
def singleQuotes : List Char → List Char
  | '"' :: '"' :: rest => '"' :: singleQuotes rest
  | c :: rest => c :: singleQuotes rest
  | [] => []

/-- The value of a string `"..."`. -/
def regular (lexeme : List Char) : Except Nat (List Char) :=
  let lexeme := withoutSuffix lexeme
  unescape 1 ((between? ['"'] ['"'] lexeme).getD lexeme)

/-- The value of a string `@"..."`. -/
def verbatim (lexeme : List Char) : List Char :=
  let lexeme := withoutSuffix lexeme
  singleQuotes ((between? ['@', '"'] ['"'] lexeme).getD lexeme)

/-- The value of a character literal.  One that does not hold exactly one character is at fault as a
whole. -/
def character (lexeme : List Char) : Except Nat Char := do
  match ← unescape 1 ((between? ['\''] ['\''] lexeme).getD lexeme) with
  | [c] => .ok c
  | _ => .error 0

/-- The text of a string with holes in which two braces in a row stand for one; nothing if it has a
hole. -/
def singleBraces? : List Char → Option (List Char)
  | '{' :: '{' :: rest => ('{' :: ·) <$> singleBraces? rest
  | '}' :: '}' :: rest => ('}' :: ·) <$> singleBraces? rest
  | '{' :: _ => none
  | c :: rest => (c :: ·) <$> singleBraces? rest
  | [] => some []

/-- A mark that may stand before a string's opening quote. -/
def isMark (c : Char) : Bool := c = '$' || c = '@'

/-- The value of a string `$"..."` or `$@"..."`; nothing if it has a hole.  A string with a suffix
has no text. -/
def interpolated (lexeme : List Char) : Except Nat (Option (List Char)) :=
  let marks := lexeme.takeWhile isMark
  let body := (between? ['"'] ['"'] (lexeme.drop marks.length)).getD []
  match singleBraces? body with
  | none => .ok none
  | some text =>
      if '@' ∈ marks then .ok (some (singleQuotes text))
      else some <$> unescape (marks.length + 1) text

/-- The lines of a text. -/
def splitLines : List Char → List (List Char)
  | [] => [[]]
  | '\n' :: rest => [] :: splitLines rest
  | c :: rest =>
      match splitLines rest with
      | [] => [[c]]
      | line :: lines => (c :: line) :: lines

/-- A line without the indentation of the closing quotes, or else without leading blanks. -/
def unindent (indent line : List Char) : List Char :=
  (dropBeginning? indent line).getD (Text.trimStart line)

/-- The lines of a raw string whose opening quotes end their line.  The last line holds the closing
quotes and only gives the indentation. -/
def rawLines (text : List Char) : List Char :=
  let lines := splitLines text
  let indent := lines.getLast?.getD []
  let content := ['\n'].intercalate lines.dropLast
  let content := (dropEnding? ['\r'] content).getD content
  ['\n'].intercalate ((splitLines content).map (unindent indent))

/-- The text holds `part` somewhere. -/
def holds (part : List Char) : List Char → Bool
  | [] => part.isEmpty
  | c :: rest => part.isPrefixOf (c :: rest) || holds part rest

/-- The text of a raw string between its quotes. -/
def rawBody? (quoted : List Char) : Option (List Char) :=
  let quotes := (quoted.takeWhile (· = '"')).length
  if quotes ≤ quoted.length - quotes then
    some ((quoted.take (quoted.length - quotes)).drop quotes)
  else none

/-- The value of a raw string; nothing if it has a hole, which as many braces open as the string has
dollars. -/
def raw? (lexeme : List Char) : Option (List Char) := do
  let lexeme := withoutSuffix lexeme
  let dollars := (lexeme.takeWhile (· = '$')).length
  let body ← rawBody? (lexeme.drop dollars)
  if 0 < dollars ∧ holds (List.replicate dollars '{') body then none
  else
    match dropBeginning? ['\r', '\n'] body <|> dropBeginning? ['\n'] body with
    | none => some body
    | some rest => some (rawLines rest)

end Graft.Literal
