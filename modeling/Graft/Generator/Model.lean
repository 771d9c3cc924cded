/-
Module: Graft.Generator.Model
Purpose: What a generator asks about a program, and its settings.
Main exports: SourceModel, Compilation.model, GeneratorConfig
-/
import Graft.Program.Compilation

namespace Graft

/-- How artifacts are named. -/
inductive ArtifactNaming where
  /-- By namespace, the types around the class, and its name, each type with its arity. -/
  | qualified
  /-- By the simple name of the class. -/
  | simple
deriving DecidableEq, Repr, Inhabited

/-- The settings of a generator. -/
structure GeneratorConfig where
  /-- The metadata name of the attribute that marks classes. -/
  marker : String
  /-- The metadata name of the type whose properties are copied. -/
  repository : String
  naming : ArtifactNaming
  /-- What every artifact's name ends with. -/
  suffix : String
  /-- What every artifact imports. -/
  usings : List String
  /-- Every artifact starts by saying that it is generated. -/
  header : Bool
deriving DecidableEq, Repr, Inhabited

/-- The settings where nothing else is said. -/
def GeneratorConfig.standard : GeneratorConfig where
  marker := "Definitions.HasDerivedPropertyAttribute"
  repository := "Definitions.DerivedProperties"
  naming := .qualified
  suffix := ".g.cs"
  usings := ["System"]
  header := false

/-- The answers that a generator needs about a program. -/
structure SourceModel where
  /-- The files whose classes may be marked. -/
  files : List SourceFile
  /-- The class of an attribute of a declaration. -/
  attributeClass? : DeclId → AttributeSyntax → Option TypeKey
  /-- The full name of a type. -/
  displayName? : TypeKey → Option String
  /-- The type that a declaration is part of. -/
  declaredType? : DeclId → Option TypeKey
  /-- The type with a metadata name. -/
  lookup? : String → Option TypeKey
  /-- The type with a key. -/
  entry? : TypeKey → Option TypeEntry
  /-- The text of a type in which a definition stands with its own type parameters. -/
  displayDefinition : TypeRef → String

/-- The answers that a compilation gives. -/
def Compilation.model (c : Compilation) : SourceModel where
  files := c.sourceTrees.map (·.file)
  attributeClass? := c.attributeClass?
  displayName? := c.registry.displayName?
  declaredType? := c.declaredType?
  lookup? := c.registry.lookup?
  entry? := c.registry.get?
  displayDefinition := c.registry.displayDefinition

end Graft
