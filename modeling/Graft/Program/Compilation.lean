/-
Module: Graft.Program.Compilation
Purpose: A program whose texts are read and whose types are known.
Main exports: Compilation, Compilation.build, CompilationError
-/
import Graft.Program.Completion
import Graft.Registry.Display

namespace Graft

/-- Why there is no compilation. -/
inductive CompilationError where
  | parse (file : String) (errors : List ParseError)
  | registration (errors : List RegistrationError)
deriving DecidableEq, Repr, Inhabited

/-- The message of an error. -/
def CompilationError.message : CompilationError → String
  | parse file errors => s!"failed to parse '{file}': {ParseError.listText errors}"
  | registration errors =>
      let first := (errors.head?.map (·.message)).getD ""
      s!"{errors.length} registration error(s), first: {first}"

/-- The trees of a program and the types they declare. -/
structure Compilation where
  trees : List SourceTree
  registry : Registry
  declared : Assoc DeclId TypeKey
deriving Repr, Inhabited

namespace Compilation

/-- Read documents in order, the first with the given number.  The first that has errors ends
that. -/
def readFrom (index : Nat) : List Document → Except CompilationError (List SourceTree)
  | [] => .ok []
  | d :: rest =>
      match SourceTree.parse ⟨index⟩ d with
      | .error errors => .error (.parse d.name errors)
      | .ok tree => (readFrom (index + 1) rest).map (tree :: ·)

/-- Read documents in order. -/
def read (documents : List Document) : Except CompilationError (List SourceTree) :=
  readFrom 0 documents

/-- The compilation of documents. -/
def build (documents : List Document) : Except CompilationError Compilation := do
  let trees ← read documents
  let g := Registration.ofTrees trees
  if g.errors.isEmpty then
    return ⟨trees, (Completion.ofRegistration g trees).registry, g.declared⟩
  else throw (.registration g.errors)

/-- The trees of the program itself. -/
def sourceTrees (c : Compilation) : List SourceTree := c.trees.filter (·.isSource)

/-- The tree with a number. -/
def tree? (c : Compilation) (id : SourceId) : Option SourceTree := c.trees[id.index]?

/-- The type that a declaration is part of. -/
def declaredType? (c : Compilation) (id : DeclId) : Option TypeKey := c.declared.get? id

/-- The class of an attribute of a declaration. -/
def attributeClass? (c : Compilation) (id : DeclId) (a : AttributeSyntax) : Option TypeKey := do
  let entry ← c.registry.get? (← c.declaredType? id)
  (← entry.attributes.find? fun e => e.declaration = id && e.span = a.span).class?

end Compilation

end Graft
