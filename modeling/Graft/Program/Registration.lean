/-
Module: Graft.Program.Registration
Purpose: The types that a program declares.
Main exports: Registration, Registration.add, Registration.ofTrees

Declarations of one type are parts of it if all are partial, of one kind and of one origin.  A
declaration that goes with no other ones is left out, together with the types nested in it.
-/
import Graft.Program.Site
import Graft.Registry.Basic

namespace Graft

/-- The declared types, the type that each declaration is part of, and the declarations' errors. -/
structure Registration where
  registry : Registry
  declared : Assoc DeclId TypeKey
  errors : List RegistrationError
deriving Repr, Inhabited

/-- A declaration is a further part of a type. -/
def TypeEntry.continuedBy (e : TypeEntry) (origin : Origin) (d : TypeDecl) : Bool :=
  e.modifiers.isPartial && d.modifiers.isPartial && e.kind = d.kind && e.origin = origin

/-- A type with one more part. -/
def TypeEntry.withPart (e : TypeEntry) (d : TypeDecl) : TypeEntry :=
  { e with declarations := e.declarations ++ [d.id], modifiers := e.modifiers.union d.modifiers }

namespace DeclSite

/-- The type that a first declaration declares, before its members are known. -/
def newEntry (s : DeclSite) (origin : Origin) : TypeEntry where
  qualified := s.qualified
  space := s.path
  key := s.key
  kind := s.decl.kind
  origin := origin
  modifiers := s.decl.modifiers
  typeParams := s.decl.paramNames
  container? := s.container?
  declarations := [s.decl.id]
  attributes := []
  members := []

/-- Why a declaration is no further part of a type. -/
def conflict (s : DeclSite) (e : TypeEntry) : RegistrationError :=
  if e.modifiers.isPartial && s.decl.modifiers.isPartial && e.kind ≠ s.decl.kind then
    .partialKindMismatch s.qualified.display e.kind.keyword s.decl.kind.keyword
  else .duplicateType s.qualified.display s.decl.name.span

end DeclSite

namespace Registration

/-- Nothing is registered. -/
def empty : Registration := ⟨.empty, .empty, []⟩

/-- The declaration and those around it are not left out. -/
def isOpen (g : Registration) (s : DeclSite) : Bool :=
  s.containers.all fun d => g.declared.contains d.id

/-- The registry with a declaration added. -/
def place (r : Registry) (origin : Origin) (s : DeclSite) : Except RegistrationError Registry :=
  match r.get? s.key with
  | none => r.register (s.newEntry origin)
  | some e =>
      if e.continuedBy origin s.decl then .ok (r.modify s.key (·.withPart s.decl))
      else .error (s.conflict e)

/-- Register a declaration. -/
def add (g : Registration) (origin : Origin) (s : DeclSite) : Registration :=
  if g.isOpen s then
    match place g.registry origin s with
    | .ok registry => { g with registry, declared := g.declared.insert s.decl.id s.key }
    | .error e => { g with errors := g.errors ++ [e] }
  else g

/-- Make sure that the namespaces of a tree exist. -/
def addSpaces (r : Registry) (t : SourceTree) : Registry :=
  t.chains.foldl (fun r chain => r.createSpace (chain.flatMap (·.path))) r

/-- Register the declarations of a tree in the order of its text. -/
def addTree (g : Registration) (t : SourceTree) : Registration :=
  t.sites.foldl (fun g s => g.add t.origin s) { g with registry := addSpaces g.registry t }

/-- Register the declarations of trees in their order. -/
def ofTrees (trees : List SourceTree) : Registration := trees.foldl addTree empty

/-- The number of types. -/
def typeCount (g : Registration) : Nat := g.registry.types.entries.length

/-- The number of declarations that are further parts of a type. -/
def mergedCount (g : Registration) : Nat := g.declared.entries.length - g.typeCount

end Registration

end Graft
