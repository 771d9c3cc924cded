/-
Module: Graft.Parser.Basic
Purpose: Reading a list of tokens with one-way steps, recursion and repetition.
Main exports: Parser, ParserState, Parser.fix, Parser.many, Parser.separated

A production that occurs inside itself is written as a function of the inner occurrence and tied by
`Parser.fix`.  Each round of the recursion passes at least one token, so as many rounds as there are
unread tokens are enough.
-/
import Graft.Parser.Error
import Graft.Syntax.Decl
import Graft.Token.Lexer

namespace Graft

/-- Where a parser stands: the tokens it has not read, the one it read last, and what it reported.
While it is `panicking` further errors are not reported. -/
structure ParserState where
  source : SourceId
  unread : List Token
  /-- Where the source ends. -/
  stop : Position
  last? : Option Token
  errors : List ParseError
  panicking : Bool
  /-- The number of the next type declaration. -/
  nextDecl : Nat
deriving DecidableEq, Repr, Inhabited

namespace ParserState

/-- The state before the first token of a source. -/
def ofText (source : SourceId) (text : String) : ParserState :=
  let stream := TokenStream.ofText text
  ⟨source, stream.tokens, stream.stop, none, stream.errors.map .ofLexError, false, 0⟩

/-- The token `n` places ahead; beyond the last one, the one that marks the end. -/
def ahead (s : ParserState) (n : Nat) : Token := s.unread[n]?.getD (.endOfFile s.stop)

/-- The next token. -/
def current (s : ParserState) : Token := s.ahead 0

/-- Nothing is left to read. -/
def atEnd (s : ParserState) : Bool := s.unread.isEmpty

/-- The next token is of a class. -/
def check (s : ParserState) (kind : TokenKind) : Bool := s.current.kind = kind

/-- The next token is an identifier with exactly this text. -/
def checkWord (s : ParserState) (word : String) : Bool :=
  s.current.kind = .identifier && s.current.lexeme = word

/-- Pass some tokens. -/
def pass (s : ParserState) (count : Nat) : ParserState :=
  { s with unread := s.unread.drop count, last? := (s.unread.take count).getLast? <|> s.last? }

/-- Go back to where another state stands, and keep what was reported since. -/
def rewind (s start : ParserState) : ParserState :=
  { s with unread := start.unread, last? := start.last? }

/-- Add an error. -/
def report (s : ParserState) (e : ParseError) : ParserState := { s with errors := s.errors ++ [e] }

/-- Add an error unless the parser is panicking, which it is from then on. -/
def record (s : ParserState) (e : ParseError) : ParserState :=
  if s.panicking then s else { s.report e with panicking := true }

/-- The span from `start` to the end of the last token read. -/
def spanFrom (s : ParserState) (start : Span) : Span :=
  match s.last? with
  | some token => if start.offset ≤ token.span.offset then start.merge token.span else start
  | none => start

/-- The error that something else was expected in place of the next token. -/
def unexpected (s : ParserState) (what : String) : ParseError :=
  let token := s.current
  if token.kind = .endOfFile then ⟨.expectedBeforeEnd what, token.span⟩
  else ⟨.expected what token.lexeme, token.span⟩

end ParserState

/-- A parser changes the state and yields a value or an error. An error keeps the state in which it
arose. -/
abbrev Parser (α : Type) := EStateM ParseError ParserState α

namespace Parser

/-- Look at the next token. -/
def peek : Parser Token := return (← get).current

/-- Look at the class of the token `n` places ahead. -/
def kindAhead (n : Nat) : Parser TokenKind := return ((← get).ahead n).kind

/-- The next token is of a class. -/
def check (kind : TokenKind) : Parser Bool := return (← get).check kind

/-- Nothing is left to read. -/
def atEnd : Parser Bool := return (← get).atEnd

/-- Pass the next token; at the end nothing is passed. -/
def advance : Parser Token := do
  let token ← peek
  modify (·.pass 1)
  return token

/-- Pass the next token if it is of a class. -/
def eat? (kind : TokenKind) : Parser (Option Token) := do
  if ← check kind then some <$> advance else return none

/-- Pass the next token if it is of a class, and say whether it was. -/
def eat (kind : TokenKind) : Parser Bool := return (← eat? kind).isSome

/-- Pass the next token, which has to be of a class. -/
def expect (kind : TokenKind) : Parser Token := do
  match ← eat? kind with
  | some token => return token
  | none => throw ((← get).unexpected kind.description)

/-- Pass the next token if it is an identifier with exactly this text. -/
def eatWord? (word : String) : Parser (Option Token) := do
  if (← get).checkWord word then some <$> advance else return none

/-- The span from `start` to the end of the last token read. -/
def spanFrom (start : Span) : Parser Span := return (← get).spanFrom start

/-- Yield the error that something was expected in place of the next token. -/
def failExpecting {α : Type} (what : String) : Parser α := do throw ((← get).unexpected what)

/-- Yield an error about the next token. -/
def failAt {α : Type} (cause : String → ParseCause) : Parser α := do
  let token ← peek
  throw ⟨cause token.lexeme, token.span⟩

/-! ### Recursion -/

variable {ι α : Type}

/-- A production unfolded `rounds` times. -/
def unfold (step : (ι → Parser α) → ι → Parser α) : Nat → ι → Parser α
  | 0, _ => do throw ⟨.unclosedGroup, (← peek).span⟩
  | rounds + 1, i => step (unfold step rounds) i

/-- A production that occurs inside itself. -/
def fix (step : (ι → Parser α) → ι → Parser α) (i : ι) : Parser α := fun s =>
  unfold step (s.unread.length + 1) i s

/-- What an item yields as often as it yields something. -/
def many (item : Parser (Option α)) : Parser (List α) :=
  fix (fun rest _ => do
    match ← item with
    | none => return []
    | some value => return value :: (← rest ())) ()

/-- One or more items with commas between them. -/
def separated (item : Parser α) : Parser (List α) :=
  fix (fun rest _ => do
    let value ← item
    if ← eat .comma then return value :: (← rest ()) else return [value]) ()

/-- An item if a test succeeds. -/
def whenever (test : Parser Bool) (item : Parser α) : Parser (Option α) := do
  if ← test then some <$> item else return none

end Parser

end Graft
