/-
Module: Graft.Parser.Attribute
Purpose: Reading attributes and modifiers.
Main exports: Parser.attributeList, Parser.attributeLists, Parser.modifiers
-/
import Graft.Parser.Expr

namespace Graft.Parser

/-- Pass a token that serves as a name. -/
def nameToken : Parser Ident := do
  let token ← advance
  return ⟨token.name, token.span⟩

/-- An argument of an attribute: `value`, `name: value` or `Name = value`. -/
def argument : Parser ArgumentSyntax := do
  let s ← get
  let start := s.current.span
  let separator := (s.ahead 1).kind
  let role ←
    if s.check .identifier && (separator = .equal || separator = .colon) then do
      let name ← nameToken
      let _ ← advance
      pure (if separator = .colon then .parameter name else .property name)
    else pure .positional
  let value ← expr [.comma, .rightParen]
  return ⟨role, value, ← spanFrom start⟩

/-- The arguments of an attribute up to the closing parenthesis. -/
def arguments : Parser (List ArgumentSyntax) :=
  fix (fun rest _ => do
    if (← check .rightParen) || (← atEnd) then return []
    let value ← argument
    if ← eat .comma then return value :: (← rest ()) else return [value]) ()

/-- An attribute. -/
def attributeItem : Parser AttributeSyntax := do
  let start := (← peek).span
  let name ← namedType true
  let arguments ←
    if ← eat .leftParen then do
      let list ← arguments
      let _ ← expect .rightParen
      pure list
    else pure []
  return ⟨name, arguments, ← spanFrom start⟩

/-- The next tokens say what an attribute list is about. -/
def isTarget (s : ParserState) : Bool :=
  let kind := s.current.kind
  (kind = .identifier || kind = .keyword || kind = .eventKeyword) && (s.ahead 1).kind = .colon

/-- Attributes between brackets. A comma may stand before the closing one. -/
def attributeList : Parser AttributeList := do
  let start := (← expect .leftBracket).span
  let target? ←
    if isTarget (← get) then do
      let name ← nameToken
      let _ ← advance
      pure (some name)
    else pure none
  let first ← attributeItem
  let more ← many do
    if ← eat .comma then
      if ← check .rightBracket then return none else some <$> attributeItem
    else return none
  let _ ← expect .rightBracket
  return ⟨target?, first :: more, ← spanFrom start⟩

/-- As many attribute lists as there are. -/
def attributeLists : Parser (List AttributeList) := many (whenever (check .leftBracket) attributeList)

/-- The modifiers that are reserved only before a declaration. -/
def contextualModifiers : List String := ["partial", "file", "required", "async"]

/-- A token of this class can follow a contextual modifier. -/
def followsModifier : TokenKind → Bool
  | .modifier | .identifier | .predefinedType | .classKeyword | .structKeyword | .interfaceKeyword
  | .enumKeyword | .delegateKeyword | .eventKeyword | .leftParen => true
  | _ => false

/-- The next token is a modifier. -/
def isModifier (s : ParserState) : Bool :=
  match s.current.kind with
  | .modifier => true
  | .identifier =>
      contextualModifiers.contains s.current.lexeme && followsModifier (s.ahead 1).kind
  | _ => false

/-- As many modifiers as there are, as a set. -/
def modifiers : Parser Modifiers := do
  let tokens ← many (whenever (return isModifier (← get)) advance)
  return (tokens.filterMap fun t => Modifiers.ofKeyword? t.lexeme).foldl .union .empty

end Graft.Parser
