/-
Module: Graft.Syntax.Decl
Purpose: Declarations as they are written.
Main exports: SourceFile, NamespaceDecl, TypeDecl, MemberDecl, PropertyDecl.getter?

Bodies are not kept.  Of a property the place of its getter is known, so that the text of the getter
can be taken from the source.
-/
import Graft.Modifiers
import Graft.Syntax.Expr

namespace Graft

/-- The number of a source. -/
structure SourceId where
  index : Nat
deriving DecidableEq, Repr, Inhabited

/-- The text of a source's number. -/
def SourceId.display (id : SourceId) : String := s!"source_{id.index}"

/-- A type declaration is known by its source and its number there, in the order of the text. -/
structure DeclId where
  source : SourceId
  index : Nat
deriving DecidableEq, Repr, Inhabited

namespace DeclId

/-- The text of a declaration's identity. -/
def display (id : DeclId) : String := s!"{id.source.display}#{id.index}"

/-- Declarations are ordered by source, then by number. -/
def precedes (a b : DeclId) : Bool :=
  a.source.index < b.source.index || (a.source.index = b.source.index && a.index ≤ b.index)

end DeclId

/-- What a type declaration declares. -/
inductive TypeKind where
  | classKind
  | structKind
  | interfaceKind
  | recordKind
  | recordStructKind
  | enumKind
deriving DecidableEq, Repr, Inhabited

/-- The words that introduce a declaration of the kind. -/
def TypeKind.keyword : TypeKind → String
  | classKind => "class"
  | structKind => "struct"
  | interfaceKind => "interface"
  | recordKind => "record"
  | recordStructKind => "record struct"
  | enumKind => "enum"

/-- What an argument of an attribute is for. -/
inductive ArgumentRole where
  | positional
  /-- A parameter of the constructor: `name: value`. -/
  | parameter (name : Ident)
  /-- A property that is set afterwards: `name = value`. -/
  | property (name : Ident)
deriving DecidableEq, Repr, Inhabited

/-- An argument of an attribute. -/
structure ArgumentSyntax where
  role : ArgumentRole
  value : Expr
  span : Span
deriving Repr, Inhabited

/-- An attribute. -/
structure AttributeSyntax where
  name : NamedType
  arguments : List ArgumentSyntax
  span : Span
deriving Repr, Inhabited

namespace AttributeSyntax

/-- The arguments that go to the constructor. -/
def constructorArguments (a : AttributeSyntax) : List ArgumentSyntax :=
  a.arguments.filter fun arg => match arg.role with
    | .property _ => false
    | _ => true

/-- The arguments that set a property, each with the property's name. -/
def namedArguments (a : AttributeSyntax) : List (Ident × ArgumentSyntax) :=
  a.arguments.filterMap fun arg => match arg.role with
    | .property name => some (name, arg)
    | _ => none

end AttributeSyntax

/-- Attributes between brackets, and what they are said to be about. -/
structure AttributeList where
  target? : Option Ident
  attributes : List AttributeSyntax
  span : Span
deriving Repr, Inhabited

/-- What a using directive brings into scope. -/
inductive UsingKind where
  | namespaceImport
  | staticImport
  | aliasImport (name : Ident)
deriving DecidableEq, Repr, Inhabited

/-- A using directive. -/
structure UsingDirective where
  kind : UsingKind
  target : TypeSyntax
  isGlobal : Bool
  span : Span
deriving Repr, Inhabited

/-- The accessors of properties and events. -/
inductive AccessorKind where
  | get
  | set
  | init
  | add
  | remove
deriving DecidableEq, Repr, Inhabited

/-- The accessor that a word introduces. -/
def AccessorKind.ofKeyword? (word : String) : Option AccessorKind :=
  [("get", get), ("set", set), ("init", init), ("add", add), ("remove", remove)].lookup word

/-- The body of an accessor. -/
inductive AccessorBody where
  | missing
  | block (span : Span)
  | arrow (span : Span)
deriving DecidableEq, Repr, Inhabited

/-- An accessor. -/
structure AccessorDecl where
  kind : AccessorKind
  modifiers : Modifiers
  body : AccessorBody
  span : Span
deriving DecidableEq, Repr, Inhabited

/-- The body of a property: an arrow with an expression, or accessors. -/
inductive PropertyBody where
  | arrow (span : Span)
  | accessors (list : List AccessorDecl)
deriving DecidableEq, Repr, Inhabited

/-- A variable of a field declaration. -/
structure VariableDecl where
  name : Ident
  initializer? : Option Expr
  span : Span
deriving Repr, Inhabited

/-- A declaration of fields. -/
structure FieldDecl where
  attributes : List AttributeList
  modifiers : Modifiers
  type : TypeSyntax
  declarators : List VariableDecl
  span : Span
deriving Repr, Inhabited

/-- A declaration of a property. -/
structure PropertyDecl where
  attributes : List AttributeList
  modifiers : Modifiers
  type : TypeSyntax
  name : Ident
  body : PropertyBody
  initializer? : Option Expr
  span : Span
deriving Repr, Inhabited

/-- A declaration of a method. -/
structure MethodDecl where
  attributes : List AttributeList
  modifiers : Modifiers
  returnType : TypeSyntax
  name : Ident
  typeParams : List Ident
  span : Span
deriving Repr, Inhabited

/-- A declaration of events. -/
structure EventDecl where
  attributes : List AttributeList
  modifiers : Modifiers
  type : TypeSyntax
  names : List Ident
  span : Span
deriving Repr, Inhabited

/-- The two ways to write a getter. -/
inductive GetterForm where
  | arrow
  | accessor
deriving DecidableEq, Repr, Inhabited

namespace PropertyDecl

/-- The getter of a property and where it stands: the arrow, or the first `get` with a body. -/
def getter? (p : PropertyDecl) : Option (GetterForm × Span) :=
  match p.body with
  | .arrow span => some (.arrow, span)
  | .accessors list =>
      (list.find? fun a => a.kind = .get ∧ a.body ≠ .missing).map fun a => (.accessor, a.span)

/-- The property can be assigned. -/
def hasSetter (p : PropertyDecl) : Bool :=
  match p.body with
  | .arrow _ => false
  | .accessors list => list.any fun a => a.kind = .set ∨ a.kind = .init

end PropertyDecl

/-- A declaration of a type whose members are of type `μ`. -/
structure TypeDeclOf (μ : Type) where
  id : DeclId
  attributes : List AttributeList
  modifiers : Modifiers
  kind : TypeKind
  name : Ident
  typeParams : List Ident
  members : List μ
  span : Span
deriving Repr, Inhabited

/-- A member of a type. -/
inductive MemberDecl where
  | field (decl : FieldDecl)
  | property (decl : PropertyDecl)
  | method (decl : MethodDecl)
  | event (decl : EventDecl)
  | type (decl : TypeDeclOf MemberDecl)
  /-- A constructor, an operator, an indexer, a delegate or a conversion. -/
  | other (span : Span)
deriving Repr, Inhabited

/-- A declaration of a type. -/
abbrev TypeDecl := TypeDeclOf MemberDecl

/-- Where a member is written. -/
def MemberDecl.span : MemberDecl → Span
  | field decl => decl.span
  | property decl => decl.span
  | method decl => decl.span
  | event decl => decl.span
  | type decl => decl.span
  | other span => span

namespace TypeDeclOf

variable {μ : Type}

/-- The attributes of all lists, in order. -/
def allAttributes (d : TypeDeclOf μ) : List AttributeSyntax := d.attributes.flatMap (·.attributes)

/-- The number of type parameters. -/
def arity (d : TypeDeclOf μ) : Nat := d.typeParams.length

/-- The names of the type parameters. -/
def paramNames (d : TypeDeclOf μ) : List String := d.typeParams.map (·.name)

end TypeDeclOf

/-- The types declared directly in a type. -/
def TypeDecl.nestedTypes (d : TypeDecl) : List TypeDecl :=
  d.members.filterMap fun
    | .type nested => some nested
    | _ => none

/-- A declaration of a namespace whose members are of type `μ`. -/
structure NamespaceDeclOf (μ : Type) where
  name : List Ident
  fileScoped : Bool
  usings : List UsingDirective
  members : List μ
  span : Span
deriving Repr, Inhabited

/-- A member of a namespace. -/
inductive NamespaceMember where
  | space (decl : NamespaceDeclOf NamespaceMember)
  | type (decl : TypeDecl)
deriving Repr, Inhabited

/-- A declaration of a namespace. -/
abbrev NamespaceDecl := NamespaceDeclOf NamespaceMember

namespace NamespaceDeclOf

variable {μ : Type}

/-- The segments of the name. -/
def path (d : NamespaceDeclOf μ) : List String := d.name.map (·.name)

/-- The name with points between its segments. -/
def dotted (d : NamespaceDeclOf μ) : String := ".".intercalate d.path

end NamespaceDeclOf

/-- A whole source. -/
structure SourceFile where
  source : SourceId
  usings : List UsingDirective
  attributes : List AttributeList
  members : List NamespaceMember
  span : Span
deriving Repr, Inhabited

end Graft
