/-
Module: Graft.Registry.Basic
Purpose: All declared types, by key, by namespace and by the type that holds them.
Main exports: Registry, Registry.register, Registry.findNested?, Registry.findIn?,
  Registry.lookup?
-/
import Graft.Name.Metadata
import Graft.Namespace.Tree
import Graft.Symbol.Entry

namespace Graft

/-- Why a type cannot be registered. -/
inductive RegistrationError where
  | duplicateType (name : String) (span : Span)
  | partialKindMismatch (name first second : String)
  | invalidNamespace
deriving DecidableEq, Repr, Inhabited

/-- The message of an error. -/
def RegistrationError.message : RegistrationError → String
  | duplicateType name span => s!"duplicate type '{name}' at {span.display}"
  | partialKindMismatch name first second =>
      s!"partial declarations of '{name}' have different kinds ({first} vs {second})"
  | invalidNamespace => "invalid namespace"

/-- The declared types in the order of registration, the types nested in each, and the namespaces
with the types that are nested in none. -/
structure Registry where
  types : Assoc TypeKey TypeEntry
  nested : Assoc TypeKey (List TypeKey)
  spaces : NamespaceTree
deriving Repr, Inhabited

namespace Registry

/-- The registry without types. -/
def empty : Registry := ⟨.empty, .empty, .empty⟩

/-- The type with a key. -/
def get? (r : Registry) (key : TypeKey) : Option TypeEntry := r.types.get? key

/-- The types in the order of registration. -/
def all (r : Registry) : List TypeEntry := r.types.entries.map Prod.snd

/-- Change the type with a key, if there is one. -/
def modify (r : Registry) (key : TypeKey) (f : TypeEntry → TypeEntry) : Registry :=
  match r.get? key with
  | some entry => { r with types := r.types.insert key (f entry) }
  | none => r

/-- Make sure that a namespace exists. -/
def createSpace (r : Registry) (path : List String) : Registry :=
  { r with spaces := (r.spaces.createPath path).2 }

/-- The types nested directly in a type. -/
def nestedTypes (r : Registry) (container : TypeKey) : List TypeKey :=
  (r.nested.get? container).getD []

/-- The key belongs to a type with a name and a number of type parameters. -/
def isNamed (r : Registry) (name : String) (arity : Nat) (key : TypeKey) : Bool :=
  (r.get? key).any fun e => e.name = name && e.arity = arity

/-- The type with a name and a number of type parameters nested directly in a type. -/
def findNested? (r : Registry) (container : TypeKey) (name : String) (arity : Nat) :
    Option TypeKey :=
  (r.nestedTypes container).find? (r.isNamed name arity)

/-- The type with a name and a number of type parameters directly in a namespace. -/
def findIn? (r : Registry) (space : NamespaceId) (name : String) (arity : Nat) : Option TypeKey :=
  (r.spaces.typesNamed space name).find? (r.isNamed name arity)

/-! ### Metadata names -/

/-- Of types with one name, the one with the given number of type parameters.  If none is given
that is the one without any, or else the only one there is. -/
def pickArity? (r : Registry) (arity? : Option Nat) (keys : List TypeKey) : Option TypeKey :=
  let withArity (n : Nat) := keys.find? fun key => (r.get? key).map TypeEntry.arity = some n
  match arity? with
  | some n => withArity n
  | none =>
      withArity 0 <|> match keys with
        | [only] => some only
        | _ => none

/-- The type that segments name, starting from the types nested in a type. -/
def descend? (r : Registry) (key : TypeKey) : List (String × Option Nat) → Option TypeKey
  | [] => some key
  | (name, arity?) :: rest => do
      let candidates := (r.nestedTypes key).filter fun k => (r.get? k).any (·.name = name)
      r.descend? (← r.pickArity? arity? candidates) rest

/-- The type that segments name if the first `count` of them name its namespace. -/
def lookupAfter? (r : Registry) (segments : List (String × Option Nat)) (count : Nat) :
    Option TypeKey := do
  let space ← r.spaces.find? ((segments.take count).map Prod.fst)
  match segments.drop count with
  | [] => none
  | (name, arity?) :: rest =>
      r.descend? (← r.pickArity? arity? (r.spaces.typesNamed space name)) rest

/-- The type with a metadata name.  As many segments as possible are taken as its namespace. -/
def lookup? (r : Registry) (name : String) : Option TypeKey :=
  let segments := MetadataName.parse name
  (List.range segments.length).reverse.findSome? (r.lookupAfter? segments)

/-! ### Registration -/

/-- Register a new type.  A type that is nested needs a container that is registered. -/
def register (r : Registry) (entry : TypeEntry) : Except RegistrationError Registry :=
  if (r.get? entry.key).isSome then
    .error (.duplicateType entry.qualified.display .nowhere)
  else
    match entry.container? with
    | some container =>
        if (r.get? container).isNone then .error .invalidNamespace
        else .ok { r with
          types := r.types.insert entry.key entry
          nested := r.nested.insert container (r.nestedTypes container ++ [entry.key]) }
    | none =>
        let (space, spaces) := r.spaces.createPath entry.space
        .ok { r with
          types := r.types.insert entry.key entry
          spaces := spaces.register space entry.name entry.key }

/-- A type and the types that hold it, the innermost first; at most `limit` of them. -/
def chainUpTo (r : Registry) : Nat → TypeKey → List TypeEntry
  | 0, _ => []
  | limit + 1, key =>
      match r.get? key with
      | none => []
      | some entry =>
          entry :: match entry.container? with
            | none => []
            | some container => r.chainUpTo limit container

/-- A type and the types that hold it, the innermost first.  A type is registered after the one that
holds it, so there are no more of them than types. -/
def chain (r : Registry) (key : TypeKey) : List TypeEntry := r.chainUpTo r.types.entries.length key

end Registry

end Graft
