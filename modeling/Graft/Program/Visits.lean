/-
Module: Graft.Program.Visits
Purpose: The tables of declared types, as visits of namespaces and declarations change them.
Main exports: Tables, Tables.registry, Tables.Step, Tables.Step.register, Visit, Visit.step,
  Tables.after

The keys of the types and their order are kept apart, and a visit changes one table after the other.
A visit that fails leaves the tables as it has made them by then.
-/
import Graft.Program.Registration

namespace Graft

/-- The declared types by key, their keys in the order of registration, the types nested in each, and
the namespaces with the types that are nested in none. -/
structure Tables where
  entries : Assoc TypeKey TypeEntry
  order : List TypeKey
  nested : Assoc TypeKey (List TypeKey)
  spaces : NamespaceTree
deriving Repr, Inhabited

namespace Tables

/-- The tables without types. -/
def empty : Tables := ⟨.empty, [], .empty, .empty⟩

/-- The types nested directly in a type. -/
def nestedTypes (t : Tables) (container : TypeKey) : List TypeKey :=
  (t.nested.get? container).getD []

/-- The registry that the tables are of. -/
def registry (t : Tables) : Registry where
  types := ⟨t.order.filterMap fun key => (t.entries.get? key).map (key, ·)⟩
  nested := t.nested
  spaces := t.spaces

/-- An operation that reads and changes the tables.  It answers or fails. -/
abbrev Step (α : Type) := ExceptT RegistrationError (StateM Tables) α

namespace Step

/-- What an operation answers, and the tables that it leaves. -/
def on {α : Type} (step : Step α) (t : Tables) : Except RegistrationError α × Tables :=
  StateT.run (m := Id) step.run t

/-- The namespace with a path, with all that is missing created. -/
def createSpace (path : List String) : Step NamespaceId := do
  let (space, spaces) := (← get).spaces.createPath path
  modify fun t => { t with spaces }
  return space

/-- Note a type in the list of its container, which has to be registered, or in its namespace. -/
def index (e : TypeEntry) : Step Unit := do
  match e.container? with
  | some container =>
      if (← get).entries.contains container then
        modify fun t =>
          { t with nested := t.nested.insert container (t.nestedTypes container ++ [e.key]) }
      else throw .invalidNamespace
  | none =>
      let space ← createSpace e.space
      modify fun t => { t with spaces := t.spaces.register space e.name e.key }

/-- Register a new type. -/
def register (e : TypeEntry) : Step Unit := do
  if (← get).entries.contains e.key then
    throw (.duplicateType e.qualified.display .nowhere)
  else
    index e
    modify fun t => { t with order := t.order ++ [e.key] }
    modify fun t => { t with entries := t.entries.insert e.key e }

/-- Register the type that a declaration declares, or make the declaration a further part of it. -/
def declare (origin : Origin) (s : DeclSite) : Step Unit := do
  match (← get).entries.get? s.key with
  | some e =>
      if e.continuedBy origin s.decl then
        modify fun t => { t with entries := t.entries.insert s.key (e.withPart s.decl) }
      else throw (s.conflict e)
  | none => register (s.newEntry origin)

end Step

end Tables

/-- What is visited: a namespace with a path, or a type declaration in a text of an origin. -/
inductive Visit where
  | space (path : List String)
  | type (origin : Origin) (site : DeclSite)
deriving Repr, Inhabited

/-- What a visit does. -/
def Visit.step : Visit → Tables.Step Unit
  | space path => discard (Tables.Step.createSpace path)
  | type origin site => Tables.Step.declare origin site

/-- The tables after visits, each of which goes on where the one before it has stopped. -/
def Tables.after (visits : List Visit) : Tables :=
  visits.foldl (fun t visit => (visit.step.on t).2) .empty

end Graft
