/-
Module: Graft.Program.Site
Purpose: The texts of a program, and where in them types are declared.
Main exports: Document, SourceTree, DeclSite, SourceTree.sites, DeclSite.identity
-/
import Graft.Parser.File
import Graft.Symbol.Entry
import Graft.Name.Metadata

namespace Graft

/-- A named text of a program, or of what it refers to. -/
structure Document where
  name : String
  text : String
  origin : Origin
deriving DecidableEq, Repr, Inhabited

/-- A text that has been read. -/
structure SourceTree where
  id : SourceId
  name : String
  text : String
  file : SourceFile
  origin : Origin
deriving Repr, Inhabited

namespace SourceTree

/-- Read a text without errors. -/
def parse (id : SourceId) (d : Document) : Except (List ParseError) SourceTree := do
  return ⟨id, d.name, d.text, ← SourceFile.parse id d.text, d.origin⟩

/-- The tree is part of the program itself. -/
def isSource (t : SourceTree) : Bool := t.origin = .source

end SourceTree

/-- A type declaration with the namespaces and the types around it, the outermost first. -/
structure DeclSite where
  spaces : List NamespaceDecl
  containers : List TypeDecl
  decl : TypeDecl
deriving Repr, Inhabited

namespace DeclSite

section

variable (spaces : List NamespaceDecl)

mutual

/-- A type declaration and those in it, a type before the ones nested in it. -/
def ofType (containers : List TypeDecl) : TypeDeclOf MemberDecl → List DeclSite
  | ⟨id, attributes, modifiers, kind, name, typeParams, members, span⟩ =>
      let decl : TypeDecl := ⟨id, attributes, modifiers, kind, name, typeParams, members, span⟩
      ⟨spaces, containers, decl⟩ :: ofMembers (containers ++ [decl]) members

/-- The type declarations among members, and those in them. -/
def ofMembers (containers : List TypeDecl) : List MemberDecl → List DeclSite
  | [] => []
  | decl :: rest => ofMember containers decl ++ ofMembers containers rest

/-- The type declarations that a member is or holds. -/
def ofMember (containers : List TypeDecl) : MemberDecl → List DeclSite
  | .type decl => ofType containers decl
  | .field _ | .property _ | .method _ | .event _ | .other _ => []

end

end

mutual

/-- The type declarations in a namespace declaration. -/
def ofSpace (outer : List NamespaceDecl) : NamespaceDeclOf NamespaceMember → List DeclSite
  | ⟨name, fileScoped, usings, members, span⟩ =>
      ofSpaceMembers (outer ++ [⟨name, fileScoped, usings, members, span⟩]) members

/-- The type declarations among the members of a namespace, and those in them. -/
def ofSpaceMembers (outer : List NamespaceDecl) : List NamespaceMember → List DeclSite
  | [] => []
  | .space decl :: rest => ofSpace outer decl ++ ofSpaceMembers outer rest
  | .type decl :: rest => ofType outer [] decl ++ ofSpaceMembers outer rest

end

/-- The path of the namespace around the declaration. -/
def path (s : DeclSite) : List String := s.spaces.flatMap (·.path)

/-- The qualified name of the declared type. -/
def qualified (s : DeclSite) : QualifiedName :=
  ⟨s.decl.name.name, s.path ++ s.containers.map (·.name.name)⟩

/-- The identity of the innermost of some types that are nested in one another, the outermost
first, in a namespace. -/
def identityIn (path : List String) (types : List TypeDecl) : String :=
  types.foldl (fun parent d => typeIdentity parent d.name.name d.arity) (".".intercalate path)

/-- The identity of the declared type. -/
def identity (s : DeclSite) : String := identityIn s.path (s.containers ++ [s.decl])

/-- The key of the declared type. -/
def key (s : DeclSite) : TypeKey := .ofName s.identity

/-- The keys of the types around the declaration, the outermost first. -/
def containerKeys (s : DeclSite) : List TypeKey :=
  (List.range s.containers.length).map fun n =>
    .ofName (identityIn s.path (s.containers.take (n + 1)))

/-- The key of the type that directly holds the declared one. -/
def container? (s : DeclSite) : Option TypeKey := s.containerKeys.getLast?

end DeclSite

namespace SourceTree

/-- The type declarations of a tree in the order of its text. -/
def sites (t : SourceTree) : List DeclSite := DeclSite.ofSpaceMembers [] t.file.members

end SourceTree

mutual

/-- A namespace declaration and those in it, each after those around it, the outermost first. -/
def NamespaceDecl.chains (outer : List NamespaceDecl) :
    NamespaceDeclOf NamespaceMember → List (List NamespaceDecl)
  | ⟨name, fileScoped, usings, members, span⟩ =>
      let chain := outer ++ [⟨name, fileScoped, usings, members, span⟩]
      chain :: NamespaceMember.chains chain members

/-- The namespace declarations among members, and those in them. -/
def NamespaceMember.chains (outer : List NamespaceDecl) :
    List NamespaceMember → List (List NamespaceDecl)
  | [] => []
  | .space decl :: rest => NamespaceDecl.chains outer decl ++ NamespaceMember.chains outer rest
  | .type _ :: rest => NamespaceMember.chains outer rest

end

/-- The namespace declarations of a tree, each after those around it, the outermost first. -/
def SourceTree.chains (t : SourceTree) : List (List NamespaceDecl) :=
  NamespaceMember.chains [] t.file.members

end Graft
