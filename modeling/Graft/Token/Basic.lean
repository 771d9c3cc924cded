/-
Module: Graft.Token.Basic
Purpose: Tokens and the errors of reading them.
Main exports: Token, LexError, LexError.message
-/
import Graft.Source.Span
import Graft.Token.Kind

namespace Graft

/-- A token: its class, its exact text and where it stands. -/
structure Token where
  kind : TokenKind
  lexeme : String
  span : Span
deriving DecidableEq, Repr, Inhabited

namespace Token

/-- The token that stands after the last one of a source. -/
def endOfFile (p : Position) : Token := ⟨.endOfFile, "", .point p⟩

/-- The name an identifier token stands for: its text without a leading `@`. -/
def name (t : Token) : String :=
  match t.lexeme.toList with
  | '@' :: rest => String.ofList rest
  | _ => t.lexeme

end Token

/-- What makes a piece of a source unreadable. -/
inductive LexCause where
  | unexpectedChar (ch : Char)
  | unterminatedString
  | unterminatedChar
  | unterminatedComment
deriving DecidableEq, Repr, Inhabited

/-- An unreadable piece of a source. -/
structure LexError where
  cause : LexCause
  span : Span
deriving DecidableEq, Repr, Inhabited

namespace LexError

/-- The message of an error, with its place. -/
def message (e : LexError) : String :=
  let what := match e.cause with
    | .unexpectedChar ch => s!"unexpected character '{ch}'"
    | .unterminatedString => "unterminated string"
    | .unterminatedChar => "unterminated character literal"
    | .unterminatedComment => "unterminated comment"
  s!"{what} at {e.span.display}"

end LexError

end Graft
