/-
Module: Graft.Namespace.Tree
Purpose: The tree of namespaces and the types declared directly in each.
Main exports: NamespaceTree, NamespaceTree.child?, NamespaceTree.createPath, NamespaceTree.pathOf
-/
import Graft.Assoc
import Graft.Name.TypeKey

namespace Graft

/-- The number of a namespace in the order of creation; the root is zero. -/
abbrev NamespaceId := Nat

/-- A type declared directly in a namespace. -/
structure Resident where
  home : NamespaceId
  name : String
  key : TypeKey
deriving DecidableEq, Repr, Inhabited

/-- The tree of namespaces.  Namespace number `n + 1` is the `n`-th link, which holds its parent and
its simple name.  `homes` holds the namespace each type was last registered in. -/
structure NamespaceTree where
  links : List (NamespaceId × String)
  residents : List Resident
  homes : Assoc TypeKey NamespaceId
deriving DecidableEq, Repr, Inhabited

namespace NamespaceTree

/-- The tree with the root alone. -/
def empty : NamespaceTree := ⟨[], [], .empty⟩

/-- The namespace that holds all others. -/
def root : NamespaceId := 0

/-- The number of namespaces, with the root. -/
def size (t : NamespaceTree) : Nat := t.links.length + 1

/-- The namespace with a simple name directly in a parent. -/
def child? (t : NamespaceTree) (parent : NamespaceId) (name : String) : Option NamespaceId :=
  (t.links.idxOf? (parent, name)).map (· + 1)

/-- The namespace with a simple name directly in a parent, created if it is missing. -/
def createChild (t : NamespaceTree) (parent : NamespaceId) (name : String) :
    NamespaceId × NamespaceTree :=
  match t.child? parent name with
  | some child => (child, t)
  | none => (t.size, { t with links := t.links ++ [(parent, name)] })

/-- The namespace at the end of a path from `start`, with all that is missing created. -/
def createFrom (t : NamespaceTree) (start : NamespaceId) : List String → NamespaceId × NamespaceTree
  | [] => (start, t)
  | name :: rest => let (child, t) := t.createChild start name; t.createFrom child rest

/-- The namespace with a path, with all that is missing created. -/
def createPath (t : NamespaceTree) (path : List String) : NamespaceId × NamespaceTree :=
  t.createFrom root path

/-- The namespace at the end of a path from `start`. -/
def descend? (t : NamespaceTree) (start : NamespaceId) : List String → Option NamespaceId
  | [] => some start
  | name :: rest => do t.descend? (← t.child? start name) rest

/-- The namespace with a path. -/
def find? (t : NamespaceTree) (path : List String) : Option NamespaceId := t.descend? root path

/-- The parent and the simple name of a namespace; the root has none. -/
def link? (t : NamespaceTree) : NamespaceId → Option (NamespaceId × String)
  | 0 => none
  | n + 1 => t.links[n]?

/-- The namespace that one stands directly in. -/
def parent? (t : NamespaceTree) (node : NamespaceId) : Option NamespaceId :=
  (t.link? node).map Prod.fst

/-- The simple name of a namespace. -/
def name? (t : NamespaceTree) (node : NamespaceId) : Option String :=
  (t.link? node).map Prod.snd

/-- A namespace and those it stands in, the innermost first.  A parent is always older. -/
def ancestors (t : NamespaceTree) (node : NamespaceId) : List NamespaceId :=
  match t.parent? node with
  | some parent => if parent < node then node :: t.ancestors parent else [node]
  | none => [node]
termination_by node

/-- The simple names on the way from the root to a namespace. -/
def pathOf (t : NamespaceTree) (node : NamespaceId) : List String :=
  (t.ancestors node).reverse.filterMap t.name?

/-- Note that a type is declared directly in a namespace. A second time changes nothing but the
namespace the type was last registered in. -/
def register (t : NamespaceTree) (home : NamespaceId) (name : String) (key : TypeKey) :
    NamespaceTree :=
  let resident := ⟨home, name, key⟩
  { t with
    residents := if resident ∈ t.residents then t.residents else t.residents ++ [resident]
    homes := t.homes.insert key home }

/-- The types with a simple name declared directly in a namespace, one for each arity. -/
def typesNamed (t : NamespaceTree) (home : NamespaceId) (name : String) : List TypeKey :=
  (t.residents.filter fun r => r.home = home ∧ r.name = name).map Resident.key

/-- The simple names of the types declared directly in a namespace, each once. -/
def typeNames (t : NamespaceTree) (home : NamespaceId) : List String :=
  ((t.residents.filter (·.home = home)).map Resident.name).eraseDups

/-- The namespace a type was last registered in. -/
def homeOf? (t : NamespaceTree) (key : TypeKey) : Option NamespaceId := t.homes.get? key

end NamespaceTree

end Graft
