/-
Module: Graft.Parser.Type
Purpose: Reading types, names and type parameters.
Main exports: Parser.type, Parser.namedType, Parser.ident, Parser.typeParams
-/
import Graft.Parser.Skip

namespace Graft.Parser

/-- An identifier. -/
def ident : Parser Ident := do
  let token ← peek
  if token.kind ≠ .identifier then failAt .expectedIdentifier
  let _ ← advance
  return ⟨token.name, token.span⟩

/-- As many commas as there are. -/
def commas : Parser Nat := return (← many (eat? .comma)).length

/-- The next token is `[` with only commas between it and the next `]`. -/
def isRankSpecifier (s : ParserState) : Bool :=
  s.check .leftBracket &&
    ((s.unread.drop 1).dropWhile (·.kind = .comma)).head?.any (·.kind = .rightBracket)

/-- A suffix of a type that starts at `start`: what it makes of the type before it. -/
def typeSuffix (start : Span) : Parser (Option (TypeSyntax → TypeSyntax)) := do
  let s ← get
  if s.check .question then
    let _ ← advance
    let span ← spanFrom start
    return some (.nullable · span)
  else if s.check .star then
    let _ ← advance
    let span ← spanFrom start
    return some (.pointer · span)
  else if isRankSpecifier s then
    let _ ← advance
    let rank := (← commas) + 1
    let _ ← expect .rightBracket
    let span ← spanFrom start
    return some (.array · rank span)
  else return none

section

variable (type : Parser TypeSyntax)

/-- Type arguments between `<` and `>`.  Missing ones, as in `<,>`, give none. -/
def typeArgs : Parser (List TypeSyntax) := do
  let _ ← expect .less
  if (← check .greater) || (← check .comma) then
    let _ ← commas
    let _ ← expect .greater
    return []
  let args ← separated type
  let _ ← expect .greater
  return args

/-- One segment of a dotted name.  Without `withArgs` a `<` ends the name. -/
def typeSegment (withArgs : Bool) : Parser TypeSegment := do
  let name ← ident
  let args ← if withArgs && (← check .less) then typeArgs type else pure []
  return ⟨name, args⟩

/-- A dotted name. -/
def namedTypeOf (withArgs : Bool) : Parser NamedType := do
  let start := (← peek).span
  let qualifier? ←
    if (← check .identifier) && (← kindAhead 1) = .doubleColon then
      let name ← ident
      let _ ← advance
      pure (some name)
    else pure none
  let first ← typeSegment type withArgs
  let more ← many do
    if (← check .dot) && (← kindAhead 1) = .identifier then
      let _ ← advance
      some <$> typeSegment type withArgs
    else return none
  return ⟨qualifier?, first :: more, ← spanFrom start⟩

/-- A tuple type. -/
def tupleType : Parser TypeSyntax := do
  let start := (← expect .leftParen).span
  let elements ← separated do
    let type ← type
    let name? ← whenever (check .identifier) ident
    return ⟨type, name?⟩
  let _ ← expect .rightParen
  return .tuple elements (← spanFrom start)

/-- A type without suffixes. -/
def baseType : Parser TypeSyntax := do
  let token ← peek
  match token.kind with
  | .predefinedType =>
      let _ ← advance
      return .predefined token.lexeme token.span
  | .leftParen => tupleType type
  | .identifier => .named <$> namedTypeOf type true
  | _ => failAt .expectedType

/-- A type, given how the types inside it are read. -/
def typeOf : Parser TypeSyntax := do
  let base ← baseType type
  let suffixes ← many (typeSuffix base.span)
  return suffixes.foldl (fun type suffix => suffix type) base

end

/-- A type. -/
def type : Parser TypeSyntax := fix (fun inner _ => typeOf (inner ())) ()

/-- A dotted name whose type arguments, if allowed, are types. -/
def namedType (withArgs : Bool) : Parser NamedType := namedTypeOf type withArgs

/-- A declared type parameter; attributes and the direction of variance are passed. -/
def typeParam : Parser Ident := do
  let _ ← many (whenever (check .leftBracket) skipGroup)
  let token ← peek
  if token.kind = .keyword && (token.lexeme = "in" || token.lexeme = "out") then
    let _ ← advance
  ident

/-- Declared type parameters between `<` and `>`, if there are any. -/
def typeParams : Parser (List Ident) := do
  if ← eat .less then
    let params ← separated typeParam
    let _ ← expect .greater
    return params
  else return []

end Graft.Parser
