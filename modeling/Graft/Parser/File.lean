/-
Module: Graft.Parser.File
Purpose: Reading type declarations, namespaces and whole sources.
Main exports: Parser.typeDecl, Parser.namespaceDecl, Parser.sourceFile, SourceFile.ofText,
  SourceFile.parse
-/
import Graft.Parser.Member

namespace Graft

namespace Parser

/-- The next tokens start a type declaration. -/
def isTypeKeyword (s : ParserState) : Bool :=
  match s.current.kind with
  | .classKeyword | .structKeyword | .interfaceKeyword | .enumKeyword => true
  | .identifier =>
      let next := (s.ahead 1).kind
      s.current.lexeme = "record" &&
        (next = .identifier || next = .classKeyword || next = .structKeyword)
  | _ => false

/-- The number of the next declaration. -/
def newDeclId : Parser DeclId := do
  let s ← get
  set { s with nextDecl := s.nextDecl + 1 }
  return ⟨s.source, s.nextDecl⟩

/-- The words that say what a declaration declares. -/
def typeKind : Parser TypeKind := do
  match (← advance).kind with
  | .classKeyword => return .classKind
  | .structKeyword => return .structKind
  | .interfaceKeyword => return .interfaceKind
  | .enumKeyword => return .enumKind
  | _ =>
      if ← eat .structKeyword then return .recordStructKind
      else
        let _ ← eat .classKeyword
        return .recordKind

/-- The closing brace of a body.  If it is missing that is reported and reading goes on. -/
def closingBrace : Parser Unit := do
  if !(← eat .rightBrace) then
    modify fun s => s.report (s.unexpected "'\x7d'")

section

variable (typeDecl : MemberHead → Parser TypeDecl)

/-- A member of the type called `typeName`, which may be a type itself. -/
def member (typeName : String) : Parser MemberDecl := do
  let head ← memberHead
  if isTypeKeyword (← get) then .type <$> typeDecl head else memberAfter typeName head

/-- The members up to the closing brace.  What cannot be read is reported and passed. -/
def typeBody (typeName : String) : Parser (List MemberDecl) := do
  let members ← many do
    if (← atEnd) || (← check .rightBrace) then return none
    else if ← eat .semicolon then return some none
    else some <$> recovering none (some <$> member typeDecl typeName)
  return members.filterMap id

/-- Pass the parameters of a record or class, its bases and its constraints. -/
def skipBases : Parser Unit := do
  if ← check .leftParen then skipGroup
  if (← check .colon) || (← get).checkWord "where" then skipUntil [.leftBrace, .semicolon]

/-- The members of a declaration of a kind, or nothing but `;`.  Those of an enumeration are
passed. -/
def typeMembers (kind : TypeKind) (typeName : String) : Parser (List MemberDecl) := do
  if ← eat .semicolon then return []
  let _ ← expect .leftBrace
  let members ←
    if kind = .enumKind then do
      skipUntil [.rightBrace]
      pure []
    else typeBody typeDecl typeName
  closingBrace
  let _ ← eat .semicolon
  return members

/-- A type declaration after its attributes and modifiers, given how nested ones are read. -/
def typeDeclOf (head : MemberHead) : Parser TypeDecl := do
  let id ← newDeclId
  let kind ← typeKind
  let name ← ident
  let typeParams ← typeParams
  skipBases
  let members ← typeMembers typeDecl kind name.name
  return ⟨id, head.attributes, head.modifiers, kind, name, typeParams, members,
    ← spanFrom head.start⟩

end

/-- A type declaration after its attributes and modifiers. -/
def typeDecl (head : MemberHead) : Parser TypeDecl := fix typeDeclOf head

/-- A type declared in a namespace.  A delegate is passed. -/
def namespaceType : Parser (Option TypeDecl) := do
  let head ← memberHead
  let s ← get
  if isTypeKeyword s then some <$> typeDecl head
  else if s.check .delegateKeyword then
    skipUntil [.semicolon]
    let _ ← expect .semicolon
    return none
  else failAt .expectedDeclaration

/-- The next tokens start a using directive. -/
def isUsing (s : ParserState) : Bool :=
  s.check .usingKeyword || (s.checkWord "global" && (s.ahead 1).kind = .usingKeyword)

/-- The next tokens start attributes of the whole program. -/
def isGlobalAttribute (s : ParserState) : Bool :=
  let target := (s.ahead 1).lexeme
  s.check .leftBracket && (target = "assembly" || target = "module") && (s.ahead 2).kind = .colon

/-- What a using directive is for. -/
def usingKind : Parser UsingKind := do
  let s ← get
  if s.current.kind = .modifier && s.current.lexeme = "static" then
    let _ ← advance
    return .staticImport
  else if s.check .identifier && (s.ahead 1).kind = .equal then
    let name ← ident
    let _ ← advance
    return .aliasImport name
  else return .namespaceImport

/-- A using directive. -/
def usingDirective : Parser UsingDirective := do
  let start := (← peek).span
  let isGlobal := (← eatWord? "global").isSome
  let _ ← expect .usingKeyword
  let kind ← usingKind
  let target ← type
  let _ ← expect .semicolon
  return ⟨kind, target, isGlobal, ← spanFrom start⟩

end Parser

/-- What a file or a namespace holds, each kind in the order of the text. -/
structure NamespaceBody where
  usings : List UsingDirective
  attributes : List AttributeList
  members : List NamespaceMember
deriving Repr, Inhabited

namespace NamespaceBody

def empty : NamespaceBody := ⟨[], [], []⟩

/-- One body after another. -/
def append (a b : NamespaceBody) : NamespaceBody :=
  ⟨a.usings ++ b.usings, a.attributes ++ b.attributes, a.members ++ b.members⟩

/-- The body that holds what the parts hold. -/
def concat (parts : List NamespaceBody) : NamespaceBody := parts.foldr append empty

end NamespaceBody

namespace Parser

section

variable (space : Parser NamespaceDecl)

/-- One item of a file or a namespace. -/
def namespaceItem : Parser NamespaceBody := do
  let s ← get
  if isUsing s then
    let decl ← usingDirective
    return { NamespaceBody.empty with usings := [decl] }
  else if isGlobalAttribute s then
    let list ← attributeList
    return { NamespaceBody.empty with attributes := [list] }
  else if s.check .namespaceKeyword then
    let decl ← space
    return { NamespaceBody.empty with members := [.space decl] }
  else if s.check .rightBrace then
    let token ← advance
    throw ⟨.stray token.lexeme, token.span⟩
  else
    let decl? ← namespaceType
    return { NamespaceBody.empty with members := decl?.toList.map .type }

/-- The items up to the end, or up to a closing brace if there is one to come.  What cannot be read
is reported and passed. -/
def namespaceBody (braced : Bool) : Parser NamespaceBody := do
  let parts ← many do
    if (← atEnd) || (braced && (← check .rightBrace)) then return none
    else some <$> recovering .empty (namespaceItem space)
  return .concat parts

/-- A namespace declaration, given how nested ones are read.  One that ends with `;` holds the rest
of the file. -/
def namespaceDeclOf : Parser NamespaceDecl := do
  let start := (← expect .namespaceKeyword).span
  let first ← ident
  let more ← many (whenever (eat .dot) ident)
  let fileScoped ← eat .semicolon
  let body ←
    if fileScoped then namespaceBody space false
    else do
      let _ ← expect .leftBrace
      let body ← namespaceBody space true
      closingBrace
      let _ ← eat .semicolon
      pure body
  return ⟨first :: more, fileScoped, body.usings, body.members, ← spanFrom start⟩

end

/-- A namespace declaration. -/
def namespaceDecl : Parser NamespaceDecl := fix (fun inner _ => namespaceDeclOf (inner ())) ()

/-- A whole source.  Its span covers all of the text, whatever is left to read. -/
def sourceFile : Parser SourceFile := do
  let s ← get
  let body ← namespaceBody namespaceDecl false
  return ⟨s.source, body.usings, body.attributes, body.members, ⟨0, 1, 1, s.stop.offset⟩⟩

end Parser

namespace SourceFile

/-- The tree without declarations that a source has if reading it fails as a whole. -/
def blank (source : SourceId) : SourceFile := ⟨source, [], [], [], ⟨0, 1, 1, 0⟩⟩

/-- The tree of a source as far as it could be read, and the errors. -/
def ofText (source : SourceId) (text : String) : SourceFile × List ParseError :=
  match Parser.sourceFile.run (.ofText source text) with
  | .ok file s => (file, s.errors)
  | .error e s => (blank source, s.errors ++ [e])

/-- The tree of a source without errors. -/
def parse (source : SourceId) (text : String) : Except (List ParseError) SourceFile :=
  match ofText source text with
  | (file, []) => .ok file
  | (_, errors) => .error errors

end SourceFile

end Graft
