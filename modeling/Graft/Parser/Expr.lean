/-
Module: Graft.Parser.Expr
Purpose: Reading expressions.
Main exports: Parser.expr, Parser.additive, Parser.literal

An expression is first tried as one that may be constant.  If that fails, or if it does not end
where it should, it is passed up to its end with brackets in balance.
-/
import Graft.Literal.Text
import Graft.Parser.Type

namespace Graft.Parser

/-- The value of a literal token, or the error it makes. -/
def literalValue? (token : Token) : Except ParseError (Option LiteralValue) :=
  let lexeme := token.lexeme.toList
  let atEscape {α : Type} : Except Nat α → Except ParseError α := Except.mapError fun offset =>
    ⟨.invalidEscape token.lexeme,
      { token.span with
        offset := token.span.offset + offset, column := token.span.column + offset, length := 2 }⟩
  let string (text : List Char) : LiteralValue := .string (String.ofList text)
  let interpolated (text? : Option (List Char)) : LiteralValue :=
    .interpolated (text?.map String.ofList)
  match token.kind with
  | .stringLiteral => (some ∘ string) <$> atEscape (Literal.regular lexeme)
  | .verbatimString => .ok (some (string (Literal.verbatim lexeme)))
  | .interpolatedString => (some ∘ interpolated) <$> atEscape (Literal.interpolated lexeme)
  | .rawString =>
      match Literal.raw? lexeme with
      | some text => .ok (some (if lexeme.head? = some '$' then interpolated text else string text))
      | none => .ok (some (interpolated none))
  | .charLiteral => (some ∘ .char) <$> atEscape (Literal.character lexeme)
  | .intLiteral =>
      match Number.integer? lexeme with
      | some value => .ok (some (.int value))
      | none => .error ⟨.outOfRange token.lexeme, token.span⟩
  | .realLiteral => .ok (some (.real (Number.real lexeme)))
  | .trueKeyword => .ok (some (.bool true))
  | .falseKeyword => .ok (some (.bool false))
  | .nullKeyword => .ok (some .null)
  | _ => .ok none

/-- A literal.  One without a value is reported and passed. -/
def literal : Parser Expr := do
  let token ← peek
  match literalValue? token with
  | .error e =>
      modify fun s => (s.report e).pass 1
      throw e
  | .ok none => failExpecting "expression"
  | .ok (some value) =>
      let _ ← advance
      return .literal value token.span

/-- The next tokens are `nameof` and `(`. -/
def isNameOf (s : ParserState) : Bool := s.checkWord "nameof" && (s.ahead 1).kind = .leftParen

section

variable (additive : Parser Expr)

/-- An expression without operators outside parentheses. -/
def primary : Parser Expr := do
  let token ← peek
  if token.kind = .leftParen then
    let _ ← advance
    let inner ← additive
    let _ ← expect .rightParen
    return .paren inner (← spanFrom token.span)
  else if isNameOf (← get) then
    let _ ← advance
    let _ ← advance
    let target ← namedType true
    let _ ← expect .rightParen
    return .nameOf target (← spanFrom token.span)
  else if token.kind = .identifier then .name <$> namedType false
  else literal

/-- An expression after any number of minus signs. -/
def unary : Parser Expr := do
  let signs ← many (eat? .minus)
  let operand ← primary additive
  return signs.foldr (fun sign inner => .negate inner (sign.span.merge inner.span)) operand

/-- One or more summands, given how the expressions inside parentheses are read. -/
def additiveOf : Parser Expr := do
  let first ← unary additive
  let more ← many (whenever (eat .plus) (unary additive))
  return more.foldl (fun lhs rhs => .add lhs rhs (lhs.span.merge rhs.span)) first

end

/-- One or more summands. -/
def additive : Parser Expr := fix (fun inner _ => additiveOf (inner ())) ()

/-- What a parser yields, or nothing if it yields an error. -/
def attempt {α : Type} (p : Parser α) : Parser (Option α) :=
  tryCatch (some <$> p) fun _ => return none

/-- An expression that ends before one of `terminators`.  If there is nothing to read, that is
reported. -/
def expr (terminators : List TokenKind) : Parser Expr := do
  let start ← get
  let constant? ← attempt additive
  match constant? with
  | some e => if (← peek).kind ∈ terminators then return e
  | none => pure ()
  modify (·.rewind start)
  skipUntil terminators
  let s ← get
  if s.unread.length = start.unread.length then
    modify (·.report (s.unexpected "expression"))
    return .unsupported start.current.span.head
  else return .unsupported (s.spanFrom start.current.span)

end Graft.Parser
