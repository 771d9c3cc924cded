/-
Module: Graft.Generator.Candidate
Purpose: The class declarations that carry the marker attribute.
Main exports: SourceModel.scan, Candidate, SourceModel.candidates, WellKnownTypes
-/
import Graft.Generator.Model
import Graft.Syntax.Node

namespace Graft

/-- A class declaration that carries the marker. -/
structure Candidate where
  decl : DeclId
  name : String
  span : Span
deriving DecidableEq, Repr, Inhabited

/-- The two types that a generator is about. -/
structure WellKnownTypes where
  marker : TypeKey
  repository : TypeKey
deriving DecidableEq, Repr, Inhabited

/-- Which of the two types are found if one is missing. -/
structure MissingTypes where
  markerFound : Bool
  repositoryFound : Bool
deriving DecidableEq, Repr, Inhabited

namespace SourceModel

/-- The class declarations with attributes, in the order of the files and their texts. -/
def scan (m : SourceModel) : List TypeDecl :=
  ((m.files.flatMap (·.nodes)).filter (·.isCandidate)).filterMap SyntaxNode.type?

/-- An attribute of the declaration has the class `marker`. -/
def isMarked (m : SourceModel) (marker : TypeKey) (d : TypeDecl) : Bool :=
  d.allAttributes.any fun a => m.attributeClass? d.id a = some marker

/-- A list without the candidates whose declaration is that of an earlier one, or is in `seen`. -/
def firstOfDecl (seen : List DeclId) : List Candidate → List Candidate
  | [] => []
  | c :: rest =>
      if c.decl ∈ seen then firstOfDecl seen rest else c :: firstOfDecl (c.decl :: seen) rest

/-- The candidates among declarations, if `marker` is the marker's metadata name. -/
def candidates (m : SourceModel) (marker : String) (decls : List TypeDecl) : List Candidate :=
  match m.lookup? marker with
  | none => []
  | some key =>
      firstOfDecl [] ((decls.filter (m.isMarked key)).map fun d => ⟨d.id, d.name.name, d.name.span⟩)

/-- The two types that the settings name. -/
def wellKnown (m : SourceModel) (config : GeneratorConfig) : Except MissingTypes WellKnownTypes :=
  match m.lookup? config.marker, m.lookup? config.repository with
  | some marker, some repository => .ok ⟨marker, repository⟩
  | marker?, repository? => .error ⟨marker?.isSome, repository?.isSome⟩

end SourceModel

end Graft
