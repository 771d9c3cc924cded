/-
Module: Graft.Lookup
Purpose: What the names in a source stand for.
Main exports: Lookup.simple, Lookup.type, Lookup.attribute?, Lookup.space?, Lookup.resolve

A simple name is looked for in the types around it and then in the namespaces around it, the
innermost first.  At each namespace its own types come before aliases and those before imports.  A
name that several imports of one level give different meanings is ambiguous.
-/
import Graft.Registry.Basic
import Graft.Resolution
import Graft.Scope

namespace Graft.Lookup

/-- The type that nested segments lead to from a type. -/
def nested? (r : Registry) (key : TypeKey) : List TypeSegment → Option TypeKey
  | [] => some key
  | segment :: rest => do
      nested? r (← r.findNested? key segment.name.name segment.args.length) rest

/-- The type that segments name in a namespace.  Leading ones may be namespaces; the first type
ends that. -/
def inSpace? (r : Registry) (space : NamespaceId) : List TypeSegment → Option TypeKey
  | [] => none
  | segment :: rest =>
      match r.findIn? space segment.name.name segment.args.length with
      | some key => nested? r key rest
      | none =>
          if segment.args.isEmpty then
            (r.spaces.child? space segment.name.name).bind (inSpace? r · rest)
          else none

/-- One type or none as an outcome. -/
def outcome : Option TypeKey → Resolution TypeKey
  | some key => .found key
  | none => .notFound

/-- What a simple name stands for because of one level's imports. -/
def imported (r : Registry) (level : ScopeLevel) (name : String) (arity : Nat) :
    Resolution TypeKey :=
  .ofMatches (level.imports.filterMap (r.findIn? · name arity) ++
    level.staticImports.filterMap (r.findNested? · name arity))

/-- The type that a simple name is an alias for at a level.  Aliases have no type arguments. -/
def aliased? (level : ScopeLevel) (name : String) (arity : Nat) : Option TypeKey :=
  if arity = 0 then
    match level.aliases.get? name with
    | some (.type ref) => ref.definition?
    | _ => none
  else none

/-- What a simple name stands for at one level. -/
def atLevel (r : Registry) (level : ScopeLevel) (name : String) (arity : Nat) :
    Resolution TypeKey :=
  match r.findIn? level.space name arity <|> aliased? level name arity with
  | some key => .found key
  | none => imported r level name arity

/-- The outcome at the innermost level that has one. -/
def atLevels (r : Registry) (name : String) (arity : Nat) : List ScopeLevel → Resolution TypeKey
  | [] => .notFound
  | level :: outer =>
      match atLevel r level name arity with
      | .notFound => atLevels r name arity outer
      | result => result

/-- What a simple name with a number of type arguments stands for. -/
def simple (r : Registry) (s : Scope) (name : String) (arity : Nat) : Resolution TypeKey :=
  match s.types.findSome? (r.findNested? · name arity) with
  | some key => .found key
  | none => atLevels r name arity s.levels

/-- The type that a dotted name stands for if its first segment is a namespace. -/
def afterSpace? (r : Registry) (s : Scope) (first : String) (rest : List TypeSegment) :
    Option TypeKey :=
  match s.spaceAlias? first with
  | some space => inSpace? r space rest
  | none => s.levels.findSome? fun level =>
      (r.spaces.child? level.space first).bind (inSpace? r · rest)

/-- What a name without `alias::` stands for. -/
def unqualified (r : Registry) (s : Scope) : List TypeSegment → Resolution TypeKey
  | [] => .notFound
  | first :: rest =>
      match simple r s first.name.name first.args.length with
      | .found key => outcome (nested? r key rest)
      | .ambiguous keys => .ambiguous keys
      | .notFound =>
          if rest.isEmpty || !first.args.isEmpty then .notFound
          else outcome (afterSpace? r s first.name.name rest)

/-- What a name stands for. -/
def type (r : Registry) (s : Scope) (n : NamedType) : Resolution TypeKey :=
  match n.alias? with
  | none => unqualified r s n.segments
  | some qualifier =>
      if qualifier.name = "global" then outcome (inSpace? r NamespaceTree.root n.segments)
      else outcome ((s.spaceAlias? qualifier.name).bind (inSpace? r · n.segments))

/-- A name with a word added to its last segment. -/
def suffixed (n : NamedType) (word : String) : NamedType :=
  match n.segments.getLast? with
  | none => n
  | some last =>
      let name := { last.name with name := last.name.name ++ word }
      { n with segments := n.segments.dropLast ++ [{ last with name }] }

/-- The class of an attribute: the type with its name, or if there is none the type with `Attribute`
added to it. -/
def attribute? (r : Registry) (s : Scope) (n : NamedType) : Option TypeKey :=
  match type r s n with
  | .found key => some key
  | .ambiguous _ => none
  | .notFound => (type r s (suffixed n "Attribute")).toOption

/-- The namespace with a path, seen from the innermost level that has one.  A single name may also
be an alias. -/
def space? (r : Registry) (s : Scope) (path : List String) : Option NamespaceId :=
  let viaAlias? := match path with
    | [only] => s.spaceAlias? only
    | _ => none
  viaAlias? <|> s.levels.findSome? fun level => r.spaces.descend? level.space path

/-- A type around the point has a type parameter with the name. -/
def isTypeParam (r : Registry) (s : Scope) (name : String) : Bool :=
  s.types.any fun key => (r.get? key).any fun e => e.typeParams.contains name

/-- The name of a type parameter that a written name is. -/
def typeParam? (r : Registry) (s : Scope) (n : NamedType) : Option String :=
  match n.alias?, n.segments with
  | none, [⟨name, []⟩] => if isTypeParam r s name.name then some name.name else none
  | _, _ => none

/-- A name without its type arguments. -/
def written (n : NamedType) : String :=
  match n.alias? with
  | some qualifier => qualifier.name ++ "::" ++ n.dotted
  | none => n.dotted

mutual

/-- A written type with its names resolved. -/
def resolve (r : Registry) (s : Scope) : TypeSyntax → TypeRef
  | .predefined keyword _ => .keyword keyword
  | .named n => resolveNamed r s n
  | .array element rank _ => .array (resolve r s element) rank
  | .nullable inner _ => .nullable (resolve r s inner)
  | .pointer inner _ => .pointer (resolve r s inner)
  | .tuple elements _ => .tuple (resolveElements r s elements)

/-- A written name with its type arguments resolved. -/
def resolveNamed (r : Registry) (s : Scope) : Named TypeSyntax → TypeRef
  | ⟨alias?, segments, span⟩ =>
      let n : NamedType := ⟨alias?, segments, span⟩
      match typeParam? r s n with
      | some name => .typeParam name
      | none => .named (type r s n).toOption (written n) (resolveSegments r s segments)

/-- The resolved type arguments of all segments. -/
def resolveSegments (r : Registry) (s : Scope) : List (Segment TypeSyntax) → List TypeRef
  | [] => []
  | segment :: rest => resolveSegment r s segment ++ resolveSegments r s rest

/-- The resolved type arguments of a segment. -/
def resolveSegment (r : Registry) (s : Scope) : Segment TypeSyntax → List TypeRef
  | ⟨_, args⟩ => resolveArgs r s args

/-- Resolved type arguments. -/
def resolveArgs (r : Registry) (s : Scope) : List TypeSyntax → List TypeRef
  | [] => []
  | arg :: rest => resolve r s arg :: resolveArgs r s rest

/-- Resolved elements of a tuple. -/
def resolveElements (r : Registry) (s : Scope) :
    List (TupleElement TypeSyntax Ident) → List (TupleElement TypeRef String)
  | [] => []
  | element :: rest => resolveElement r s element :: resolveElements r s rest

/-- A resolved element of a tuple. -/
def resolveElement (r : Registry) (s : Scope) :
    TupleElement TypeSyntax Ident → TupleElement TypeRef String
  | ⟨type, name?⟩ => ⟨resolve r s type, name?.map (·.name)⟩

end

end Graft.Lookup
