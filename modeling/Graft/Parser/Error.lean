/-
Module: Graft.Parser.Error
Purpose: What can be wrong with a source.
Main exports: ParseCause, ParseError, ParseError.text, ParseError.listText
-/
import Graft.Token.Basic

namespace Graft

/-- The groups that errors of a source fall into. -/
inductive ParseErrorKind where
  | expectedToken
  | unexpectedToken
  | unexpectedEnd
  | expectedType
  | expectedIdentifier
  | expectedDeclaration
  | expectedMember
  | mismatchedDelimiter
  | invalidEscape
  | invalidLiteral
  | lexical
deriving DecidableEq, Repr, Inhabited

/-- What a group of errors is called. -/
def ParseErrorKind.description : ParseErrorKind → String
  | expectedToken => "expected token"
  | unexpectedToken => "unexpected token"
  | unexpectedEnd => "unexpected end of file"
  | expectedType => "expected type"
  | expectedIdentifier => "expected identifier"
  | expectedDeclaration => "expected declaration"
  | expectedMember => "expected class member"
  | mismatchedDelimiter => "mismatched delimiter"
  | invalidEscape => "invalid escape sequence"
  | invalidLiteral => "invalid literal"
  | lexical => "lexical error"

/-- What is wrong at some place of a source.  A token that is `found` is given by its text. -/
inductive ParseCause where
  | expected (what : String) (found : String)
  | expectedBeforeEnd (what : String)
  | stray (found : String)
  | expectedType (found : String)
  | expectedIdentifier (found : String)
  | expectedDeclaration (found : String)
  /-- Attributes or modifiers that no member follows. -/
  | missingMember
  /-- A name in a type body that does not go on like a member. -/
  | unfinishedMember (found : String)
  | unclosedGroup
  | invalidEscape (lexeme : String)
  | outOfRange (lexeme : String)
  | unreadable (cause : LexCause)
  /-- An error that a caller reports in words of its own. -/
  | reported (message : String)
deriving DecidableEq, Repr, Inhabited

/-- The group that a cause falls into. -/
def ParseCause.kind : ParseCause → ParseErrorKind
  | expected .. => .expectedToken
  | expectedBeforeEnd _ => .unexpectedEnd
  | stray _ | reported _ => .unexpectedToken
  | expectedType _ => .expectedType
  | expectedIdentifier _ => .expectedIdentifier
  | expectedDeclaration _ => .expectedDeclaration
  | missingMember | unfinishedMember _ => .expectedMember
  | unclosedGroup => .mismatchedDelimiter
  | invalidEscape _ => .invalidEscape
  | outOfRange _ => .invalidLiteral
  | unreadable _ => .lexical

/-- An error and its place. -/
structure ParseError where
  cause : ParseCause
  span : Span
deriving DecidableEq, Repr, Inhabited

namespace ParseError

/-- An error of reading tokens as an error of the source. -/
def ofLexError (e : LexError) : ParseError := ⟨.unreadable e.cause, e.span⟩

/-- The group of an error. -/
def kind (e : ParseError) : ParseErrorKind := e.cause.kind

/-- What the error says, without its place. -/
def message (e : ParseError) : String :=
  match e.cause with
  | .expected what found => s!"expected {what}, found '{found}'"
  | .expectedBeforeEnd what => s!"expected {what}, found end of file"
  | .stray found => s!"unexpected '{found}'"
  | .expectedType found => s!"expected type, found '{found}'"
  | .expectedIdentifier found => s!"expected identifier, found '{found}'"
  | .expectedDeclaration found => s!"expected type declaration, found '{found}'"
  | .missingMember => "expected member after attributes or modifiers"
  | .unfinishedMember found => s!"unexpected '{found}' in member declaration"
  | .unclosedGroup => "unclosed delimiter"
  | .invalidEscape lexeme => s!"invalid escape sequence in {lexeme}"
  | .outOfRange lexeme => s!"'{lexeme}' is out of range"
  | .unreadable cause => LexError.message ⟨cause, e.span⟩
  | .reported message => message

/-- The error with its group and its place. -/
def text (e : ParseError) : String := s!"{e.kind.description} at {e.span.display}: {e.message}"

/-- All errors of a source: several are listed on lines of their own. -/
def listText : List ParseError → String
  | [] => "no errors"
  | [e] => e.text
  | errors => errors.foldl (fun text e => text ++ s!"  {e.text}\n") s!"{errors.length} parse errors:\n"

end ParseError

end Graft
