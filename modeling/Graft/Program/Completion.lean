/-
Module: Graft.Program.Completion
Purpose: The registered types with their members, attributes and constants.
Main exports: Completion, Completion.ofRegistration

Nothing fails here.  A name that stands for nothing stays unresolved, and an argument without a value
keeps the reason.
-/
import Graft.Program.Imports
import Graft.Program.Members
import Graft.Program.Registration

namespace Graft

/-- The types with all that is known of them, and the number of using directives whose targets are
not found. -/
structure Completion where
  registry : Registry
  missingUsings : Nat
deriving Repr, Inhabited

namespace Registration

/-- The bodies of a tree's registered declarations. -/
def bodiesIn (g : Registration) (f : FileScopes) (t : SourceTree) : List DeclBody :=
  let top := f.atTop t
  t.sites.filterMap fun site =>
    (g.declared.get? site.decl.id).map fun owner => ⟨t, site.decl, owner, f.inType top site⟩

/-- The bodies of all registered declarations. -/
def bodies (g : Registration) (trees : List SourceTree) : List DeclBody :=
  trees.flatMap (g.bodiesIn (.ofTrees g.registry trees))

/-- The types with their members. -/
def withMembers (g : Registration) (bodies : List DeclBody) : Registry :=
  bodies.foldl (fun r b => (b.members g.registry g.declared).foldl
    (fun r m => r.modify b.owner (·.addMember m)) r) g.registry

/-- The initializers of constant fields.  Each body has its number among the bodies as the number of
its scope.  Of two initializers of one field the later one counts. -/
def initializers (bodies : List DeclBody) : Initializers where
  scopes := bodies.map (·.scope)
  byField := (bodies.zipIdx.flatMap fun (b, scope) => b.initializers scope).foldl
    (fun m (id, i) => m.insert id i) .empty

/-- The constant fields. -/
def constantFields (g : Registration) (bodies : List DeclBody) : ConstantFields where
  registry := g.withMembers bodies
  initializers := initializers bodies

end Registration

namespace Registry

/-- The types with the values of their constant fields. -/
def withConstants (r : Registry) (values : FieldValues) : Registry :=
  values.entries.foldl (fun r (id, value) =>
    match value with
    | .ok c => r.modify id.owner (·.withConstant id.name c)
    | .error _ => r) r

/-- The types with attributes of declarations added. -/
def withAttributes (r : Registry) (attributes : List (TypeKey × AttributeEntry)) : Registry :=
  attributes.foldl (fun r (owner, a) => r.modify owner (·.addAttribute a)) r

end Registry

namespace Completion

/-- Complete the registered types of trees. -/
def ofRegistration (g : Registration) (trees : List SourceTree) : Completion :=
  let bodies := g.bodies trees
  let fields := g.constantFields bodies
  let values := fields.evaluateAll .empty
  let attributes := bodies.flatMap fun b =>
    (b.attributes g.registry fields values).map (b.owner, ·)
  { registry := (fields.registry.withConstants values).withAttributes attributes
    missingUsings := (FileScopes.ofTrees g.registry trees).missing trees }

/-- The number of members. -/
def memberCount (c : Completion) : Nat := (c.registry.all.flatMap (·.members)).length

/-- The attributes of all types. -/
def attributes (c : Completion) : List AttributeEntry := c.registry.all.flatMap (·.attributes)

/-- The number of attributes whose class is not found. -/
def missingAttributes (c : Completion) : Nat := c.attributes.countP (·.class?.isNone)

/-- The number of fields with a value. -/
def constantCount (c : Completion) : Nat :=
  (c.registry.all.flatMap (·.members)).countP fun m => m.field?.any (·.value?.isSome)

end Completion

end Graft
