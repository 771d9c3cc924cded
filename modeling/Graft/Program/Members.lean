/-
Module: Graft.Program.Members
Purpose: The members and the attributes of types, as their declarations give them.
Main exports: DeclBody, DeclBody.members, DeclBody.initializers, DeclBody.attributes,
  TypeEntry.addMember
-/
import Graft.Constant.Evaluation
import Graft.Program.Site

namespace Graft

/-- The body of a registered declaration: the type it is part of, and what is visible in it. -/
structure DeclBody where
  tree : SourceTree
  decl : TypeDecl
  owner : TypeKey
  scope : Scope
deriving Repr, Inhabited

namespace SourceTree

/-- The getter of a property.  Only the program's own trees have texts of getters. -/
def getter? (t : SourceTree) (p : PropertyDecl) : Option Getter :=
  if t.isSource then do
    let (form, span) ← p.getter?
    return ⟨form, ← span.slice? t.text, span⟩
  else none

/-- A declaration of a property in a tree. -/
def part (t : SourceTree) (p : PropertyDecl) : PropertyPart :=
  ⟨t.id, p.span, t.getter? p, p.hasSetter⟩

end SourceTree

namespace DeclBody

/-- The members that a member declaration declares, with their types looked up in `r`.  A nested type
is one if its declaration is registered. -/
def membersOf (b : DeclBody) (r : Registry) (declared : Assoc DeclId TypeKey) :
    MemberDecl → List MemberEntry
  | .field d =>
      let type := Lookup.resolve r b.scope d.type
      d.declarators.map fun v => .field ⟨v.name.name, type, d.modifiers, none⟩
  | .property d =>
      [.property ⟨d.name.name, Lookup.resolve r b.scope d.type, d.modifiers, [b.tree.part d]⟩]
  | .method d => [.method ⟨d.name.name, d.modifiers, d.span⟩]
  | .event d => d.names.map fun name => .event ⟨name.name, d.modifiers, d.span⟩
  | .type d => ((declared.get? d.id).map (.nestedType d.name.name)).toList
  | .other _ => []

/-- The members that a declaration declares. -/
def members (b : DeclBody) (r : Registry) (declared : Assoc DeclId TypeKey) : List MemberEntry :=
  b.decl.members.flatMap (b.membersOf r declared)

/-- The initializers of the constant fields that a member declaration declares, if the scope of the
body has the number `scope`. -/
def initializersOf (b : DeclBody) (scope : Nat) : MemberDecl → List (FieldId × Initializer)
  | .field d =>
      if d.modifiers.isConst then
        d.declarators.filterMap fun v => v.initializer?.map fun expr =>
          (⟨b.owner, v.name.name⟩, ⟨expr, scope, b.tree.text⟩)
      else []
  | _ => []

/-- The initializers of the constant fields that a declaration declares. -/
def initializers (b : DeclBody) (scope : Nat) : List (FieldId × Initializer) :=
  b.decl.members.flatMap (b.initializersOf scope)

/-- An argument of an attribute with its value, if the values of fields are as `values` say. -/
def argument (b : DeclBody) (fields : ConstantFields) (values : FieldValues) (a : ArgumentSyntax) :
    AttributeArgument where
  value := ((fields.evaluate b.scope b.tree.text a.value).run values).1
  text := (a.value.span.slice? b.tree.text).getD ""
  span := a.span

/-- An attribute with its class looked up in `r`. -/
def attributeEntry (b : DeclBody) (r : Registry) (fields : ConstantFields) (values : FieldValues)
    (a : AttributeSyntax) : AttributeEntry where
  class? := Lookup.attribute? r b.scope a.name
  written := NamedType.display a.name
  arguments := a.constructorArguments.map (b.argument fields values)
  named := a.namedArguments.map fun (name, arg) => (name.name, b.argument fields values arg)
  declaration := b.decl.id
  span := a.span

/-- The attributes of a declaration. -/
def attributes (b : DeclBody) (r : Registry) (fields : ConstantFields) (values : FieldValues) :
    List AttributeEntry :=
  b.decl.allAttributes.map (b.attributeEntry r fields values)

end DeclBody

namespace MemberEntry

/-- A partial property with a name. -/
def isPartialProperty (name : String) : MemberEntry → Bool
  | property p => p.name = name && p.modifiers.isPartial
  | _ => false

/-- A member says no more than an earlier one: both are partial methods of one name, or both the same
nested type. -/
def isRepeatedBy (next : MemberEntry) : MemberEntry → Bool
  | method m => match next with
      | method n => n.modifiers.isPartial && m.modifiers.isPartial && m.name = n.name
      | _ => false
  | nestedType _ key => match next with
      | nestedType _ other => key = other
      | _ => false
  | _ => false

/-- A property with the declarations of another one added; other members stay as they are. -/
def withParts (more : PropertyEntry) : MemberEntry → MemberEntry
  | property p => property
      { p with parts := p.parts ++ more.parts, modifiers := p.modifiers.union more.modifiers }
  | other => other

end MemberEntry

/-- A list in which the first element that satisfies `test` is changed; nothing if none does. -/
def replaceFirst? {α : Type} (test : α → Bool) (f : α → α) : List α → Option (List α)
  | [] => none
  | x :: rest =>
      if test x then some (f x :: rest) else (replaceFirst? test f rest).map (x :: ·)

/-- The members of a type with one more.  A partial property joins an earlier one of its name. -/
def MemberEntry.addTo (members : List MemberEntry) (m : MemberEntry) : List MemberEntry :=
  match m with
  | .property p =>
      if p.modifiers.isPartial then
        (replaceFirst? (isPartialProperty p.name) (withParts p) members).getD (members ++ [m])
      else members ++ [m]
  | _ => if members.any (isRepeatedBy m) then members else members ++ [m]

/-- A type with one more member. -/
def TypeEntry.addMember (e : TypeEntry) (m : MemberEntry) : TypeEntry :=
  { e with members := m.addTo e.members }

/-- A type in which the constant fields with a name have a value. -/
def TypeEntry.withConstant (e : TypeEntry) (name : String) (value : Constant) : TypeEntry :=
  { e with members := e.members.map fun
      | .field f =>
          if f.name = name && f.modifiers.isConst then .field { f with value? := some value }
          else .field f
      | m => m }

/-- A type with one more attribute. -/
def TypeEntry.addAttribute (e : TypeEntry) (a : AttributeEntry) : TypeEntry :=
  { e with attributes := e.attributes ++ [a] }

end Graft
