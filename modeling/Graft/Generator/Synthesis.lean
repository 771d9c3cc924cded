/-
Module: Graft.Generator.Synthesis
Purpose: The properties that a marked class gets, copied from the repository type.
Main exports: SynthesizedClass, SynthesisError, ClassError, SourceModel.synthesize

The text of a getter is copied as it is.  The names in it are not looked up again.
-/
import Graft.Generator.Candidate

namespace Graft

/-- A property that is copied into a class. -/
structure SynthesizedProperty where
  name : String
  /-- The text of the type. -/
  type : String
  getter : Getter
deriving DecidableEq, Repr, Inhabited

/-- What the declaration of a type starts with. -/
structure TypeHeader where
  accessibility? : Option String
  kind : TypeKind
  name : String
  typeParams : List String
deriving DecidableEq, Repr, Inhabited

/-- A class with the properties that are copied into it. -/
structure SynthesizedClass where
  key : TypeKey
  qualified : QualifiedName
  /-- The path of the namespace. -/
  space : List String
  /-- The types around the class, the outermost first. -/
  containers : List TypeHeader
  header : TypeHeader
  properties : List SynthesizedProperty
deriving DecidableEq, Repr, Inhabited

/-- Why a property cannot be copied. -/
inductive SynthesisError where
  | missingArgument
  | nonConstantArgument (cause : ConstantError)
  | notAString (kind : String)
  | memberNotFound (name : String)
  | ambiguousMember (name : String) (count : Nat)
  | notAProperty (name kind : String)
  | missingGetter (name : String)
deriving DecidableEq, Repr, Inhabited

/-- The message of an error. -/
def SynthesisError.message : SynthesisError → String
  | missingArgument => "marker attribute has no property-name argument"
  | nonConstantArgument cause => s!"property-name argument is not constant: {cause.message}"
  | notAString kind => s!"property-name argument is a {kind} constant, expected a string"
  | memberNotFound name => s!"repository type has no member named '{name}'"
  | ambiguousMember name count => s!"repository type has {count} members named '{name}'"
  | notAProperty name kind => s!"repository member '{name}' is a {kind}, not a property"
  | missingGetter name => s!"repository property '{name}' has no getter syntax"

/-- Why a class gets no properties, with its name and the place of its declaration. -/
structure ClassError where
  name : String
  span : Span
  cause : SynthesisError
deriving DecidableEq, Repr, Inhabited

/-- The message of an error. -/
def ClassError.message (e : ClassError) : String :=
  s!"{e.name} at {e.span.display}: {e.cause.message}"

/-- What declarations of a type start with. -/
def TypeEntry.partialHeader (e : TypeEntry) : TypeHeader :=
  ⟨e.modifiers.accessibility?, e.kind, e.name, e.typeParams⟩

/-- The attribute's class is the given one. -/
def AttributeEntry.isOf (a : AttributeEntry) (key : TypeKey) : Bool := a.class? = some key

/-- The property name that a marker attribute gives: its first argument. -/
def AttributeEntry.propertyName (a : AttributeEntry) : Except SynthesisError String :=
  match a.arguments with
  | [] => .error .missingArgument
  | first :: _ =>
      match first.value with
      | .ok (.string name) => .ok name
      | .ok other => .error (.notAString other.kindName)
      | .error cause => .error (.nonConstantArgument cause)

namespace SourceModel

/-- The only member of a type with a name, if it is a property. -/
def repositoryProperty (m : SourceModel) (repository : TypeKey) (name : String) :
    Except SynthesisError PropertyEntry :=
  let members : List MemberEntry := ((m.entry? repository).map (·.membersNamed name)).getD []
  match members with
  | [] => .error (.memberNotFound name)
  | [.property p] => .ok p
  | [other] => .error (.notAProperty name other.kindName)
  | several => .error (.ambiguousMember name several.length)

/-- The property that a marker attribute asks for. -/
def copyProperty (m : SourceModel) (repository : TypeKey) (a : AttributeEntry) :
    Except SynthesisError SynthesizedProperty := do
  let name ← a.propertyName
  let property ← m.repositoryProperty repository name
  match property.firstGetter? with
  | none => throw (.missingGetter name)
  | some getter => return ⟨name, m.displayDefinition property.type, getter⟩

/-- The headers of a type and of those around it, the outermost first.  The walk goes on for as long as there
is a type around the one before, and comes to an end only if the host has no endless chain of types around
this one. -/
def headersTo (m : SourceModel) (e : TypeEntry) : List TypeHeader :=
  WellFounded.partialExtrinsicFix (fun holder e => e.container?.bind m.entry? = some holder)
    (fun e around => match h : e.container?.bind m.entry? with
      | none => [e.partialHeader]
      | some holder => around holder h ++ [e.partialHeader]) e

/-- The headers of the types around a type, the outermost first. -/
def containerHeaders (m : SourceModel) (e : TypeEntry) : List TypeHeader :=
  match e.container?.bind m.entry? with
  | none => []
  | some holder => m.headersTo holder

/-- A type with the properties that the marker attributes on all its declarations ask for. -/
def synthesizeType (m : SourceModel) (types : WellKnownTypes) (e : TypeEntry) :
    Except SynthesisError SynthesizedClass := do
  let markers := e.attributes.filter (·.isOf types.marker)
  let properties ← markers.mapM (m.copyProperty types.repository)
  let header := e.partialHeader
  return {
    key := e.key
    qualified := e.qualified
    space := e.space
    containers := m.containerHeaders e
    header := { header with accessibility? := header.accessibility? <|> some "public" }
    properties }

/-- The class of a candidate with its properties, or why it gets none.  A candidate whose type is not
known is passed over. -/
def synthesize (m : SourceModel) (types : WellKnownTypes) (c : Candidate) :
    Except ClassError (Option SynthesizedClass) :=
  match m.declaredType? c.decl with
  | none => .ok none
  | some key =>
      match m.entry? key with
      | none => .ok none
      | some e =>
          match m.synthesizeType types e with
          | .ok result => .ok (some result)
          | .error cause => .error ⟨(m.displayName? key).getD c.name, c.span, cause⟩

end SourceModel

end Graft
