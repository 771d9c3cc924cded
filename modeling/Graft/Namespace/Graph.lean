/-
Module: Graft.Namespace.Graph
Purpose: The namespaces as the nodes and edges of a directed graph.
Main exports: NamespaceGraph, NamespaceGraph.createPath, NamespaceGraph.descend?, NamespaceGraph.Ancestors,
  NamespaceGraph.PathOf, NamespaceCall, NamespaceGraph.Reached

Ways down are looked for among the edges out of a node, ways up among those into it, and nothing in a graph
says that the two fit together.  The loops that go up stop only where there is no edge to follow; they are
relations, which hold of a loop that ends.
-/
import Graft.Namespace.Tree

namespace Graft

/-- An edge from a namespace to one directly in it, under its simple name. -/
structure NamespaceEdge where
  source : NamespaceId
  target : NamespaceId
  name : String
deriving DecidableEq, Repr, Inhabited

/-- The namespaces in the order of creation, the first one the root, each with the types that are declared
directly in it by simple name, the edges in the order in which they were added, and the namespace each type
was last registered in. -/
structure NamespaceGraph where
  nodes : List (Assoc String (List TypeKey))
  edges : List NamespaceEdge
  homes : Assoc TypeKey NamespaceId
deriving DecidableEq, Repr, Inhabited

namespace NamespaceGraph

open NamespaceTree (root)

/-- The graph with the root alone. -/
def empty : NamespaceGraph := ⟨[.empty], [], .empty⟩

/-- The number of namespaces, with the root. -/
def size (g : NamespaceGraph) : Nat := g.nodes.length

/-- The edges out of a node, the one added last first. -/
def outgoing (g : NamespaceGraph) (node : NamespaceId) : List NamespaceEdge :=
  g.edges.reverse.filter (·.source = node)

/-- The edges into a node, the one added last first. -/
def incoming (g : NamespaceGraph) (node : NamespaceId) : List NamespaceEdge :=
  g.edges.reverse.filter (·.target = node)

/-- Where the first edge with a simple name out of a parent leads. -/
def child? (g : NamespaceGraph) (parent : NamespaceId) (name : String) : Option NamespaceId :=
  ((g.outgoing parent).find? (·.name = name)).map (·.target)

/-- The namespace with a simple name directly in a parent, created if it is missing. -/
def createChild (g : NamespaceGraph) (parent : NamespaceId) (name : String) : NamespaceId × NamespaceGraph :=
  match g.child? parent name with
  | some child => (child, g)
  | none =>
      let child := g.nodes.length
      (child, { g with nodes := g.nodes ++ [.empty], edges := g.edges ++ [⟨parent, child, name⟩] })

/-- The namespace with a path, with all that is missing created. -/
def createPath (g : NamespaceGraph) (path : List String) : NamespaceId × NamespaceGraph :=
  path.foldl (fun (current, g) name => g.createChild current name) (root, g)

/-- The namespace at the end of a path from `start`. -/
def descend? (g : NamespaceGraph) (start : NamespaceId) (path : List String) : Option NamespaceId :=
  path.foldlM (fun current name => g.child? current name) start

/-- The namespace with a path. -/
def find? (g : NamespaceGraph) (path : List String) : Option NamespaceId := g.descend? root path

/-- Where the first edge into a node comes from. -/
def parent? (g : NamespaceGraph) (node : NamespaceId) :
    Option NamespaceId := (g.incoming node).head?.map (·.source)

/-- The name on the first edge into a node; the root has none. -/
def name? (g : NamespaceGraph) (node : NamespaceId) : Option String :=
  if node = root then none else (g.incoming node).head?.map (·.name)

/-- The loop that goes from a node to its parent as long as there is one ends with a chain, if it starts with
another. -/
inductive Chains (g : NamespaceGraph) : NamespaceId → List NamespaceId → List NamespaceId → Prop where
  | top {current : NamespaceId} {chain : List NamespaceId} (last : g.parent? current = none) :
      Chains g current chain chain
  | up {current parent : NamespaceId} {chain found : List NamespaceId}
      (edge : g.parent? current = some parent)
      (later : Chains g parent (chain ++ [parent]) found) : Chains g current chain found

/-- The search for a namespace and those it stands in ends with a chain, the innermost first. -/
def Ancestors (g : NamespaceGraph) (node : NamespaceId) (chain : List NamespaceId) :
    Prop := g.Chains node [node] chain

/-- The loop that collects names on the way from a node up to the root ends with names,
if it starts with others. -/
inductive Climbs (g : NamespaceGraph) : NamespaceId → List String → List String → Prop where
  | arrived {names : List String} : Climbs g root names names
  | up {current parent : NamespaceId} {names found : List String} (below : current ≠ root)
      (edge : g.parent? current = some parent)
      (later : Climbs g parent (names ++ (g.name? current).toList) found) :
      Climbs g current names found
  | lost {current : NamespaceId} {names : List String} (below : current ≠ root)
      (last : g.parent? current = none) :
      Climbs g current names (names ++ (g.name? current).toList)

/-- The search for the simple names on the way from the root to a namespace ends with a path. -/
def PathOf (g : NamespaceGraph) (node : NamespaceId) (path : List String) : Prop :=
  ∃ names, g.Climbs node [] names ∧ path = names.reverse

/-- Note that a type is declared directly in a namespace, if there is this namespace. -/
def register (g : NamespaceGraph) (home : NamespaceId) (name : String) (key : TypeKey) : NamespaceGraph :=
  match g.nodes[home]? with
  | none => g
  | some types =>
      let known := (types.get? name).getD []
      let keys := if key ∈ known then known else known ++ [key]
      { g with nodes := g.nodes.set home (types.insert name keys), homes := g.homes.insert key home }

/-- The types with a simple name declared directly in a namespace, one for each arity. -/
def typesNamed (g : NamespaceGraph) (home : NamespaceId) (name : String) : List TypeKey :=
  (g.nodes[home]?.bind (·.get? name)).getD []

end NamespaceGraph

/-! ### Calls -/

/-- A call that changes the namespaces. -/
inductive NamespaceCall where
  | child (parent : NamespaceId) (name : String)
  | path (path : List String)
  | register (home : NamespaceId) (name : String) (key : TypeKey)
deriving DecidableEq, Repr, Inhabited

/-- The namespaces that a call names are among the first `size` ones. -/
def NamespaceCall.Within (size : Nat) : NamespaceCall → Prop
  | child parent _ => parent < size
  | path _ => True
  | register home _ _ => home < size

instance (size : Nat) : (c : NamespaceCall) → Decidable (c.Within size)
  | .child parent _ => inferInstanceAs (Decidable (parent < size))
  | .path _ => inferInstanceAs (Decidable True)
  | .register home _ _ => inferInstanceAs (Decidable (home < size))

/-- The graph after a call. -/
def NamespaceGraph.after (g : NamespaceGraph) : NamespaceCall → NamespaceGraph
  | .child parent name => (g.createChild parent name).2
  | .path path => (g.createPath path).2
  | .register home name key => g.register home name key

/-- The tree after a call. -/
def NamespaceTree.after (t : NamespaceTree) : NamespaceCall → NamespaceTree
  | .child parent name => (t.createChild parent name).2
  | .path path => (t.createPath path).2
  | .register home name key => t.register home name key

/-- The graph and the tree that the same calls make of the root alone, each call for
namespaces that are there. -/
inductive NamespaceGraph.Reached : NamespaceGraph → NamespaceTree → Prop where
  | new : Reached .empty .empty
  | call {g : NamespaceGraph} {t : NamespaceTree} (earlier : Reached g t) {c : NamespaceCall}
      (within : c.Within g.size) :
      Reached (g.after c) (t.after c)

end Graft
