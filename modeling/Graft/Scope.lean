/-
Module: Graft.Scope
Purpose: What is visible at a point of a source.
Main exports: Scope, ScopeLevel, Scope.enterNamespace, Scope.enterType, Scope.alias?
-/
import Graft.Namespace.Tree
import Graft.Symbol.TypeRef

namespace Graft

/-- What an alias stands for. -/
inductive AliasTarget where
  | space (id : NamespaceId)
  | type (ref : TypeRef)
deriving Repr, Inhabited

/-- A namespace around a point, with what using directives bring into it. -/
structure ScopeLevel where
  space : NamespaceId
  imports : List NamespaceId
  staticImports : List TypeKey
  aliases : Assoc String AliasTarget
deriving Repr, Inhabited

namespace ScopeLevel

/-- A namespace without using directives. -/
def plain (space : NamespaceId) : ScopeLevel := ⟨space, [], [], .empty⟩

/-- Using directives bring something into the level. -/
def hasImports (l : ScopeLevel) : Bool :=
  !l.imports.isEmpty || !l.staticImports.isEmpty || !l.aliases.entries.isEmpty

/-- A level with the imports of another one as well, whose aliases win. -/
def extend (l more : ScopeLevel) : ScopeLevel :=
  { l with
    imports := l.imports ++ more.imports
    staticImports := l.staticImports ++ more.staticImports
    aliases := more.aliases.entries.foldl (fun m (name, target) => m.insert name target) l.aliases }

end ScopeLevel

/-- The types and the namespaces around a point, the innermost first. -/
structure Scope where
  types : List TypeKey
  levels : List ScopeLevel
deriving Repr, Inhabited

namespace Scope

/-- The scope at the top of a source. -/
def unit (level : ScopeLevel) : Scope := ⟨[], [level]⟩

/-- The scope inside a further namespace. -/
def enterNamespace (s : Scope) (level : ScopeLevel) : Scope :=
  { s with levels := level :: s.levels }

/-- The scope inside a further type. -/
def enterType (s : Scope) (key : TypeKey) : Scope := { s with types := key :: s.types }

/-- The innermost namespace. -/
def space? (s : Scope) : Option NamespaceId := s.levels.head?.map (·.space)

/-- What a name is an alias for, at the innermost level that has one. -/
def alias? (s : Scope) (name : String) : Option AliasTarget :=
  s.levels.findSome? (·.aliases.get? name)

/-- The namespace that a name is an alias for.  An alias for a type hides the ones further out. -/
def spaceAlias? (s : Scope) (name : String) : Option NamespaceId :=
  match s.alias? name with
  | some (.space id) => some id
  | _ => none

end Scope

end Graft
