/-
Module: Graft.Symbol.Entry
Purpose: Declared types with their members and attributes.
Main exports: TypeEntry, MemberEntry, PropertyEntry, AttributeEntry
-/
import Graft.Constant.Value
import Graft.Symbol.TypeRef
import Graft.Syntax.Decl

namespace Graft

/-- Where a type comes from: the sources of the program, or declarations it only refers to. -/
inductive Origin where
  | source
  | reference
deriving DecidableEq, Repr, Inhabited

/-- An argument of an attribute: its value, and its text. -/
structure AttributeArgument where
  value : Except ConstantError Constant
  text : String
  span : Span
deriving Repr, Inhabited

/-- An attribute as it is written on one declaration of a type. -/
structure AttributeEntry where
  class? : Option TypeKey
  written : String
  arguments : List AttributeArgument
  named : List (String × AttributeArgument)
  declaration : DeclId
  span : Span
deriving Repr, Inhabited

/-- The text of a getter. -/
structure Getter where
  form : GetterForm
  text : String
  span : Span
deriving DecidableEq, Repr, Inhabited

/-- One declaration of a property. -/
structure PropertyPart where
  source : SourceId
  span : Span
  getter? : Option Getter
  hasSetter : Bool
deriving DecidableEq, Repr, Inhabited

/-- A property with all its declarations. -/
structure PropertyEntry where
  name : String
  type : TypeRef
  modifiers : Modifiers
  parts : List PropertyPart
deriving Repr, Inhabited

/-- The getter of the first declaration that has one. -/
def PropertyEntry.firstGetter? (p : PropertyEntry) : Option Getter := p.parts.findSome? (·.getter?)

/-- A field, and its value if it is a constant that has one. -/
structure FieldEntry where
  name : String
  type : TypeRef
  modifiers : Modifiers
  value? : Option Constant
deriving Repr, Inhabited

/-- A method or an event. -/
structure CallableEntry where
  name : String
  modifiers : Modifiers
  span : Span
deriving DecidableEq, Repr, Inhabited

/-- A member of a type. -/
inductive MemberEntry where
  | property (entry : PropertyEntry)
  | field (entry : FieldEntry)
  | method (entry : CallableEntry)
  | event (entry : CallableEntry)
  | nestedType (name : String) (key : TypeKey)
deriving Repr, Inhabited

namespace MemberEntry

/-- The name of a member. -/
def name : MemberEntry → String
  | property entry => entry.name
  | field entry => entry.name
  | method entry => entry.name
  | event entry => entry.name
  | nestedType name _ => name

/-- What members of this kind are called. -/
def kindName : MemberEntry → String
  | property _ => "property"
  | field _ => "field"
  | method _ => "method"
  | event _ => "event"
  | nestedType _ _ => "nested type"

/-- The property that a member is. -/
def property? : MemberEntry → Option PropertyEntry
  | property entry => some entry
  | _ => none

/-- The field that a member is. -/
def field? : MemberEntry → Option FieldEntry
  | field entry => some entry
  | _ => none

end MemberEntry

/-- A declared type, with what all its declarations say together. -/
structure TypeEntry where
  qualified : QualifiedName
  /-- The path of the namespace around the type and the types that hold it. -/
  space : List String
  key : TypeKey
  kind : TypeKind
  origin : Origin
  modifiers : Modifiers
  typeParams : List String
  container? : Option TypeKey
  declarations : List DeclId
  attributes : List AttributeEntry
  members : List MemberEntry
deriving Repr, Inhabited

namespace TypeEntry

/-- The simple name. -/
def name (e : TypeEntry) : String := e.qualified.name

/-- The number of type parameters. -/
def arity (e : TypeEntry) : Nat := e.typeParams.length

/-- The members with a name. -/
def membersNamed (e : TypeEntry) (name : String) : List MemberEntry :=
  e.members.filter (·.name = name)

/-- The first field with a name. -/
def fieldNamed? (e : TypeEntry) (name : String) : Option FieldEntry :=
  (e.membersNamed name).findSome? MemberEntry.field?

end TypeEntry

end Graft
