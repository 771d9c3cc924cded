/-
Module: Graft.Syntax.Node
Purpose: The nodes of a source in the order of its text.
Main exports: SyntaxNode, SourceFile.nodes, SourceFile.typeDecls, Visitor, Visitor.file

There are two ways through a source.  `SourceFile.nodes` lists its nodes; a nested type is listed as
a type only.  `Visitor.file` threads a state through actions on the nodes; a nested type is visited
as a member first.
-/
import Graft.Syntax.Decl

namespace Graft

/-- A node of a source. -/
inductive SyntaxNode where
  | file (decl : SourceFile)
  | directive (decl : UsingDirective)
  | space (decl : NamespaceDecl)
  | type (decl : TypeDecl)
  | member (decl : MemberDecl)
deriving Repr, Inhabited

namespace SyntaxNode

/-- The type that a node declares. -/
def type? : SyntaxNode → Option TypeDecl
  | type decl => some decl
  | _ => none

/-- A class with attributes, one of which may mark it. -/
def isCandidate : SyntaxNode → Bool
  | type decl => decl.kind = .classKind && !decl.attributes.isEmpty
  | _ => false

mutual

/-- The nodes of a type declaration. -/
def ofType : TypeDeclOf MemberDecl → List SyntaxNode
  | ⟨id, attributes, modifiers, kind, name, typeParams, members, span⟩ =>
      type ⟨id, attributes, modifiers, kind, name, typeParams, members, span⟩ :: ofMembers members

/-- The nodes of the members of a type. -/
def ofMembers : List MemberDecl → List SyntaxNode
  | [] => []
  | decl :: rest => ofMember decl ++ ofMembers rest

/-- The nodes of a member. -/
def ofMember : MemberDecl → List SyntaxNode
  | .type nested => ofType nested
  | .field decl => [member (.field decl)]
  | .property decl => [member (.property decl)]
  | .method decl => [member (.method decl)]
  | .event decl => [member (.event decl)]
  | .other span => [member (.other span)]

end

mutual

/-- The nodes of a namespace declaration. -/
def ofNamespace : NamespaceDeclOf NamespaceMember → List SyntaxNode
  | ⟨name, fileScoped, usings, members, span⟩ =>
      space ⟨name, fileScoped, usings, members, span⟩ ::
        (usings.map directive ++ ofNamespaceMembers members)

/-- The nodes of the members of a namespace. -/
def ofNamespaceMembers : List NamespaceMember → List SyntaxNode
  | [] => []
  | .space decl :: rest => ofNamespace decl ++ ofNamespaceMembers rest
  | .type decl :: rest => ofType decl ++ ofNamespaceMembers rest

end

end SyntaxNode

namespace SourceFile

/-- The nodes of a source, itself first. -/
def nodes (f : SourceFile) : List SyntaxNode :=
  .file f :: (f.usings.map .directive ++ SyntaxNode.ofNamespaceMembers f.members)

/-- The type declarations of a source, a type before those nested in it. -/
def typeDecls (f : SourceFile) : List TypeDecl := f.nodes.filterMap SyntaxNode.type?

end SourceFile

/-- Actions on the nodes of a source that change a state. -/
structure Visitor (σ : Type) where
  onUsing : UsingDirective → σ → σ
  onNamespace : NamespaceDecl → σ → σ
  onType : TypeDecl → σ → σ
  onMember : MemberDecl → σ → σ

namespace Visitor

variable {σ : Type}

/-- Visit using directives. -/
def usings (v : Visitor σ) (list : List UsingDirective) (s : σ) : σ :=
  list.foldl (fun s decl => v.onUsing decl s) s

mutual

/-- Visit a type declaration, then its members. -/
def type (v : Visitor σ) : TypeDeclOf MemberDecl → σ → σ
  | ⟨id, attributes, modifiers, kind, name, typeParams, list, span⟩, s =>
      members v list (v.onType ⟨id, attributes, modifiers, kind, name, typeParams, list, span⟩ s)

/-- Visit members in order. -/
def members (v : Visitor σ) : List MemberDecl → σ → σ
  | [], s => s
  | decl :: rest, s => members v rest (member v decl s)

/-- Visit a member, and a nested type once more as a type. -/
def member (v : Visitor σ) : MemberDecl → σ → σ
  | .type nested, s => type v nested (v.onMember (.type nested) s)
  | .field decl, s => v.onMember (.field decl) s
  | .property decl, s => v.onMember (.property decl) s
  | .method decl, s => v.onMember (.method decl) s
  | .event decl, s => v.onMember (.event decl) s
  | .other span, s => v.onMember (.other span) s

end

mutual

/-- Visit a namespace declaration, then its directives and members. -/
def space (v : Visitor σ) : NamespaceDeclOf NamespaceMember → σ → σ
  | ⟨name, fileScoped, list, inner, span⟩, s =>
      spaceMembers v inner (v.usings list (v.onNamespace ⟨name, fileScoped, list, inner, span⟩ s))

/-- Visit the members of a namespace in order. -/
def spaceMembers (v : Visitor σ) : List NamespaceMember → σ → σ
  | [], s => s
  | .space decl :: rest, s => spaceMembers v rest (space v decl s)
  | .type decl :: rest, s => spaceMembers v rest (v.type decl s)

end

/-- Visit a source. -/
def file (v : Visitor σ) (f : SourceFile) (s : σ) : σ :=
  v.spaceMembers f.members (v.usings f.usings s)

/-- The visitor that counts directives, namespaces, types and members. -/
def counting : Visitor (Nat × Nat × Nat × Nat) where
  onUsing _ := fun (u, n, t, m) => (u + 1, n, t, m)
  onNamespace _ := fun (u, n, t, m) => (u, n + 1, t, m)
  onType _ := fun (u, n, t, m) => (u, n, t + 1, m)
  onMember _ := fun (u, n, t, m) => (u, n, t, m + 1)

end Visitor

end Graft
