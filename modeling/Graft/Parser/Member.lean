/-
Module: Graft.Parser.Member
Purpose: Reading the members of a type other than nested types.
Main exports: Parser.memberAfter, MemberHead
-/
import Graft.Parser.Attribute

namespace Graft

/-- What stands before the type or keyword of a member, and where the member starts. -/
structure MemberHead where
  attributes : List AttributeList
  modifiers : Modifiers
  start : Span
deriving Repr, Inhabited

namespace Parser

/-- The attributes and modifiers of a declaration. -/
def memberHead : Parser MemberHead := do
  let start := (← peek).span
  let attributes ← attributeLists
  let modifiers ← modifiers
  return ⟨attributes, modifiers, start⟩

/-- Pass a body: a group of braces, an arrow with its expression and `;`, or just `;`. -/
def skipBody : Parser Unit := do
  let kind := (← peek).kind
  if kind = .leftBrace then skipGroup
  else
    if kind = .arrow then
      let _ ← advance
      skipUntil [.semicolon]
    let _ ← expect .semicolon

/-- Pass everything up to the body of a member. -/
def skipToBody : Parser Unit := skipUntil [.leftBrace, .semicolon, .arrow]

/-- A member that is not kept. -/
def otherMember (head : MemberHead) : Parser MemberDecl := do
  skipToBody
  skipBody
  return .other (← spanFrom head.start)

/-- The name of a member.  One that implements an interface keeps the name of the interface before
its own. -/
def memberName (name : NamedType) : Ident :=
  match name.alias?, name.segments with
  | none, [segment] => segment.name
  | _, segments =>
      match segments.getLast? with
      | none => ⟨NamedType.display name, name.span⟩
      | some last =>
          let bare := { name with segments := segments.dropLast ++ [{ last with args := [] }] }
          ⟨NamedType.display bare, name.span.merge last.name.span⟩

/-- The names of a method's type parameters, which are written as type arguments of its name. -/
def methodTypeParams (name : NamedType) : List Ident :=
  match name.last? with
  | none => []
  | some segment =>
      segment.args.filterMap fun arg => do
        let last ← (← arg.named?).last?
        return last.name

/-- A method after its name. -/
def method (head : MemberHead) (type : TypeSyntax) (name : NamedType) : Parser MemberDecl := do
  skipGroup
  skipToBody
  skipBody
  return .method ⟨head.attributes, head.modifiers, type, memberName name, methodTypeParams name,
    ← spanFrom head.start⟩

/-- An arrow with its expression and `;`. The span does not hold the `;`. -/
def arrowBody : Parser Span := do
  let arrow := (← advance).span
  skipUntil [.semicolon]
  let span ← spanFrom arrow
  let _ ← expect .semicolon
  return span

/-- The body of an accessor. -/
def accessorBody : Parser AccessorBody := do
  let token ← peek
  if token.kind = .leftBrace then
    skipGroup
    return .block (← spanFrom token.span)
  else if token.kind = .arrow then .arrow <$> arrowBody
  else
    let _ ← expect .semicolon
    return .missing

/-- An accessor.  Its attributes are passed. -/
def accessor : Parser AccessorDecl := do
  let head ← memberHead
  let keyword ← ident
  match AccessorKind.ofKeyword? keyword.name with
  | none => throw ⟨.expected "accessor" keyword.name, keyword.span⟩
  | some kind =>
      let body ← accessorBody
      return ⟨kind, head.modifiers, body, ← spanFrom head.start⟩

/-- The accessors of a property between braces. -/
def accessors : Parser (List AccessorDecl) := do
  let _ ← expect .leftBrace
  many do
    if ← eat .rightBrace then return none else some <$> accessor

/-- A property after its name. -/
def property (head : MemberHead) (type : TypeSyntax) (name : NamedType) : Parser MemberDecl := do
  let (body, initializer?) ←
    if ← check .arrow then do
      let span ← arrowBody
      pure (.arrow span, none)
    else do
      let list ← accessors
      if ← eat .equal then do
        let value ← expr [.semicolon]
        let _ ← expect .semicolon
        pure (.accessors list, some value)
      else pure (.accessors list, none)
  return .property ⟨head.attributes, head.modifiers, type, memberName name, body, initializer?,
    ← spanFrom head.start⟩

/-- The initial value of a variable, if it has one. -/
def initializer? : Parser (Option Expr) := whenever (eat .equal) (expr [.comma, .semicolon])

/-- A variable after its name. -/
def variableAfter (name : Ident) : Parser VariableDecl := do
  let value? ← initializer?
  return ⟨name, value?, ← spanFrom name.span⟩

/-- A field after its first name. -/
def field (head : MemberHead) (type : TypeSyntax) (name : NamedType) : Parser MemberDecl := do
  let first ← variableAfter (memberName name)
  let more ← many (whenever (eat .comma) do variableAfter (← ident))
  let _ ← expect .semicolon
  return .field ⟨head.attributes, head.modifiers, type, first :: more, ← spanFrom head.start⟩

/-- An event, with accessors or like a field. -/
def event (head : MemberHead) : Parser MemberDecl := do
  let _ ← expect .eventKeyword
  let type ← type
  let first := memberName (← namedType false)
  let more ←
    if ← check .leftBrace then do
      skipGroup
      pure []
    else do
      let _ ← initializer?
      let more ← many (whenever (eat .comma) do
        let name ← ident
        let _ ← initializer?
        return name)
      let _ ← expect .semicolon
      pure more
  return .event ⟨head.attributes, head.modifiers, type, first :: more, ← spanFrom head.start⟩

/-- The next tokens start the constructor of the type called `typeName`. -/
def isConstructor (typeName : String) (s : ParserState) : Bool :=
  s.check .identifier && s.current.name = typeName && (s.ahead 1).kind = .leftParen

/-- A member after its type and name. -/
def memberNamed (head : MemberHead) (type : TypeSyntax) : Parser MemberDecl := do
  let name ← namedType true
  if (← check .dot) && (← kindAhead 1) = .thisKeyword then otherMember head
  else
    match (← peek).kind with
    | .leftParen => method head type name
    | .leftBrace | .arrow => property head type name
    | .equal | .semicolon | .comma => field head type name
    | _ => failAt .unfinishedMember

/-- A member of the type called `typeName` after its attributes and modifiers. -/
def memberAfter (typeName : String) (head : MemberHead) : Parser MemberDecl := do
  let s ← get
  match s.current.kind with
  | .eventKeyword => event head
  | .delegateKeyword | .tilde | .conversionKeyword => otherMember head
  | .rightBrace | .endOfFile => failAt fun _ => .missingMember
  | _ =>
      if isConstructor typeName s then otherMember head
      else
        let type ← type
        match (← peek).kind with
        | .operatorKeyword | .thisKeyword => otherMember head
        | .identifier => memberNamed head type
        | _ => failExpecting "member name"

end Parser

end Graft
