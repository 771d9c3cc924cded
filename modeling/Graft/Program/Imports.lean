/-
Module: Graft.Program.Imports
Purpose: What using directives bring into scope.
Main exports: Imports, Imports.ofUsings, FileScopes, FileScopes.inSpaces

The directives of one namespace or file do not see one another.  A directive whose target is not
found brings in nothing and is counted.
-/
import Graft.Lookup
import Graft.Program.Site

namespace Graft

/-- A level of a scope, and the number of its directives whose targets are not found. -/
structure Imports where
  level : ScopeLevel
  missing : Nat
deriving Repr, Inhabited

namespace ScopeLevel

/-- The path that a target spells if it can be a namespace. -/
def spacePath? (target : TypeSyntax) : Option (List String) := do
  let n ← target.named?
  if (n.alias?.isNone || n.isGlobal) && n.segments.all (·.args.isEmpty) then some n.path else none

/-- The namespace that a target stands for. -/
def spaceTarget? (r : Registry) (s : Scope) (target : TypeSyntax) : Option NamespaceId :=
  (spacePath? target).bind (Lookup.space? r s)

/-- The type that a target stands for. -/
def typeTarget? (r : Registry) (s : Scope) (target : TypeSyntax) : Option TypeRef :=
  let ref := Lookup.resolve r s target
  if ref.definition?.isSome then some ref else none

/-- A level with what a directive brings in, if its target is found. -/
def import? (r : Registry) (s : Scope) (l : ScopeLevel) (u : UsingDirective) : Option ScopeLevel :=
  match u.kind with
  | .namespaceImport => do
      let space ← spaceTarget? r s u.target
      return if space ∈ l.imports then l else { l with imports := l.imports ++ [space] }
  | .staticImport => do
      let key ← (← typeTarget? r s u.target).definition?
      return { l with staticImports := l.staticImports ++ [key] }
  | .aliasImport name => do
      let target ← (spaceTarget? r s u.target).map .space <|> (typeTarget? r s u.target).map .type
      return { l with aliases := l.aliases.insert name.name target }

end ScopeLevel

namespace Imports

/-- The level with what one more directive brings in. -/
def add (r : Registry) (s : Scope) (i : Imports) (u : UsingDirective) : Imports :=
  match i.level.import? r s u with
  | some level => { i with level }
  | none => { i with missing := i.missing + 1 }

/-- What the directives of a namespace bring in.  Their targets are looked up in the namespace and
in the scope around it. -/
def ofUsings (r : Registry) (space : NamespaceId) (usings : List UsingDirective) (outer : Scope) :
    Imports :=
  let s := if outer.space? = some space then outer else outer.enterNamespace (.plain space)
  usings.foldl (add r s) ⟨.plain space, 0⟩

end Imports

/-- The scope inside a namespace with a path in the current one, and the number of directives whose
targets are not found.  The directives belong to the last segment.  A missing segment ends the
path. -/
def Scope.enterPath (r : Registry) (usings : List UsingDirective) :
    List String → Scope → Scope × Nat
  | [], s => (s, 0)
  | name :: rest, s =>
      match s.space?.bind (r.spaces.child? · name) with
      | none => (s, 0)
      | some space =>
          if rest.isEmpty then
            let imports := Imports.ofUsings r space usings s
            (s.enterNamespace imports.level, imports.missing)
          else Scope.enterPath r usings rest (s.enterNamespace (.plain space))

/-- What is visible in the files of a program: the types, and the directives for all files. -/
structure FileScopes where
  registry : Registry
  shared : Imports
deriving Repr, Inhabited

namespace FileScopes

/-- The scope in which the directives of files are looked up. -/
def unitScope : Scope := .unit (.plain NamespaceTree.root)

/-- What is visible in the files of a program. -/
def ofTrees (r : Registry) (trees : List SourceTree) : FileScopes :=
  let usings := (trees.flatMap (·.file.usings)).filter (·.isGlobal)
  ⟨r, .ofUsings r NamespaceTree.root usings unitScope⟩

/-- What the directives of a file bring in. -/
def ownImports (f : FileScopes) (t : SourceTree) : Imports :=
  .ofUsings f.registry NamespaceTree.root (t.file.usings.filter (!·.isGlobal)) unitScope

/-- The scope at the top of a file. -/
def atTop (f : FileScopes) (t : SourceTree) : Scope :=
  .unit (f.shared.level.extend (f.ownImports t).level)

/-- The scope inside namespace declarations, the outermost first, of a file. -/
def inSpaces (f : FileScopes) (top : Scope) (spaces : List NamespaceDecl) : Scope :=
  spaces.foldl (fun s d => (Scope.enterPath f.registry d.usings d.path s).1) top

/-- The scope inside a type declaration of a file. -/
def inType (f : FileScopes) (top : Scope) (site : DeclSite) : Scope :=
  (site.containerKeys ++ [site.key]).foldl Scope.enterType (f.inSpaces top site.spaces)

/-- The number of directives of a file whose targets are not found. -/
def missingIn (f : FileScopes) (t : SourceTree) : Nat :=
  let top := f.atTop t
  let inner := t.chains.map fun chain =>
    match chain.getLast? with
    | none => 0
    | some d => (Scope.enterPath f.registry d.usings d.path (f.inSpaces top chain.dropLast)).2
  inner.foldl (· + ·) (f.ownImports t).missing

/-- The number of directives of all files whose targets are not found. -/
def missing (f : FileScopes) (trees : List SourceTree) : Nat :=
  trees.foldl (fun count t => count + f.missingIn t) f.shared.missing

end FileScopes

end Graft
