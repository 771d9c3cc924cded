/-
Module: Graft.Generator.Artifact
Purpose: The texts of synthesized classes and the names they go under.
Main exports: SynthesizedClass.text, SynthesizedClass.hint, Artifact, stage, GeneratedSources
-/
import Graft.Generator.Synthesis

namespace Graft

/-- The declaration of a property that is copied. -/
def SynthesizedProperty.text (p : SynthesizedProperty) : String :=
  let head := "public " ++ p.type ++ " " ++ p.name ++ " "
  match p.getter.form with
  | .arrow => head ++ p.getter.text ++ ";"
  | .accessor => head ++ "\x7b " ++ p.getter.text ++ " \x7d"

namespace TypeHeader

/-- The first line of a partial declaration. -/
def text (h : TypeHeader) : String :=
  let access := (h.accessibility?.map (· ++ " ")).getD ""
  let params := if h.typeParams.isEmpty then "" else "<" ++ ", ".intercalate h.typeParams ++ ">"
  access ++ "partial " ++ h.kind.keyword ++ " " ++ h.name ++ params

/-- The name with the number of type parameters. -/
def segment (h : TypeHeader) : String := MetadataName.segment h.name h.typeParams.length

end TypeHeader

/-- The lines of declarations nested in one another, around lines inside the innermost one. -/
def nestedLines (inner : List String) : List TypeHeader → List String
  | [] => inner
  | h :: rest => [h.text, "\x7b"] ++ (nestedLines inner rest).map ("\t" ++ ·) ++ ["\x7d"]

namespace SynthesizedClass

/-- The headers of the types around the class and of the class itself, the outermost first. -/
def headers (c : SynthesizedClass) : List TypeHeader := c.containers ++ [c.header]

/-- The segments of the metadata name. -/
def segments (c : SynthesizedClass) : List String := c.space ++ c.headers.map (·.segment)

/-- The lines of the declaration with its properties, and of the types around it. -/
def bodyLines (c : SynthesizedClass) : List String :=
  nestedLines (c.properties.map (·.text)) c.headers

/-- The lines before the first declaration. -/
def preamble (config : GeneratorConfig) : List String :=
  (if config.header then ["// <auto-generated/>"] else []) ++
    config.usings.map fun target => "using " ++ target ++ ";"

/-- The line that puts all that follows into a namespace. -/
def spaceLines (c : SynthesizedClass) : List String :=
  if c.space.isEmpty then [] else ["namespace " ++ ".".intercalate c.space ++ ";"]

/-- A paragraph and the blank line after it, if it has any lines. -/
def paragraph (lines : List String) : List String :=
  if lines.isEmpty then [] else lines ++ [""]

/-- The lines of the artifact. -/
def lines (config : GeneratorConfig) (c : SynthesizedClass) : List String :=
  paragraph (preamble config) ++ paragraph c.spaceLines ++ c.bodyLines

/-- The text of the artifact. -/
def text (config : GeneratorConfig) (c : SynthesizedClass) : String :=
  String.join ((c.lines config).map (· ++ "\n"))

/-- The name that the artifact goes under. -/
def hint (config : GeneratorConfig) (c : SynthesizedClass) : String :=
  let stem := match config.naming with
    | .qualified => ".".intercalate c.segments
    | .simple => c.header.name
  stem ++ config.suffix

end SynthesizedClass

/-- A generated text, its name, and the class it is part of. -/
structure Artifact where
  hint : String
  owner : QualifiedName
  text : String
deriving DecidableEq, Repr, Inhabited

/-- Why nothing is generated. -/
inductive GenerationError where
  | synthesis (errors : List ClassError)
  | nameCollision (hint first second : String)
  | cancelled
deriving DecidableEq, Repr, Inhabited

/-- The message of an error. -/
def GenerationError.message : GenerationError → String
  | synthesis errors =>
      let first := (errors.head?.map (·.message)).getD ""
      s!"{errors.length} class(es) failed synthesis, first: {first}"
  | nameCollision hint first second => s!"artifact '{hint}' generated for both {first} and {second}"
  | cancelled => "generation cancelled"

/-- The artifact of a class. -/
def SynthesizedClass.artifact (config : GeneratorConfig) (c : SynthesizedClass) : Artifact :=
  ⟨c.hint config, c.qualified, c.text config⟩

/-- Artifacts with one more, unless its name is taken. -/
def stage (staged : List Artifact) (a : Artifact) : Except GenerationError (List Artifact) :=
  match staged.find? (·.hint = a.hint) with
  | some first => .error (.nameCollision a.hint first.owner.display a.owner.display)
  | none => .ok (staged ++ [a])

/-- Generated texts by name, in the order in which the names came. -/
abbrev GeneratedSources := Assoc String String

/-- Texts with those of artifacts added.  A text that was there under the same name is replaced. -/
def GeneratedSources.add (sources : GeneratedSources) (artifacts : List Artifact) :
    GeneratedSources :=
  artifacts.foldl (fun s a => s.insert a.hint a.text) sources

end Graft
