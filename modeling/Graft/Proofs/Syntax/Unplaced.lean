/-
Module: Graft.Proofs.Syntax.Unplaced
Purpose: Trees without the places of their parts.
Main exports: SourceFile.unplaced, TypeSyntax.display_unplaced, Parser.memberName_unplaced

Every span is replaced by the span of no particular place, and all else stays.  Trees that become the same
that way differ in their places only.
-/
import Graft.Proofs.Syntax.Likeness

namespace Graft

/-! ### Types -/

def Ident.unplaced (i : Ident) : Ident := ⟨i.name, .nowhere⟩

mutual

/-- A type without the places of its parts. -/
def TypeSyntax.unplaced : TypeSyntax → TypeSyntax
  | .predefined keyword _ => .predefined keyword .nowhere
  | .named name => .named (NamedType.unplaced name)
  | .array element rank _ => .array element.unplaced rank .nowhere
  | .nullable inner _ => .nullable inner.unplaced .nowhere
  | .pointer inner _ => .pointer inner.unplaced .nowhere
  | .tuple elements _ => .tuple (TypeSyntax.unplacedElements elements) .nowhere

def NamedType.unplaced : Named TypeSyntax → Named TypeSyntax
  | ⟨qualifier?, segments, _⟩ =>
      ⟨qualifier?.map Ident.unplaced, TypeSyntax.unplacedSegments segments, .nowhere⟩

def TypeSyntax.unplacedSegments : List (Segment TypeSyntax) → List (Segment TypeSyntax)
  | [] => []
  | segment :: rest => TypeSegment.unplaced segment :: TypeSyntax.unplacedSegments rest

def TypeSegment.unplaced : Segment TypeSyntax → Segment TypeSyntax
  | ⟨name, args⟩ => ⟨name.unplaced, TypeSyntax.unplacedArgs args⟩

def TypeSyntax.unplacedArgs : List TypeSyntax → List TypeSyntax
  | [] => []
  | arg :: rest => arg.unplaced :: TypeSyntax.unplacedArgs rest

def TypeSyntax.unplacedElements : List (TupleElement TypeSyntax Ident) → List (TupleElement TypeSyntax Ident)
  | [] => []
  | element :: rest => TypeSyntax.unplacedElement element :: TypeSyntax.unplacedElements rest

def TypeSyntax.unplacedElement : TupleElement TypeSyntax Ident → TupleElement TypeSyntax Ident
  | ⟨type, name?⟩ => ⟨type.unplaced, name?.map Ident.unplaced⟩

end

theorem TypeSyntax.unplacedArgs_eq (args : List TypeSyntax) : unplacedArgs args = args.map unplaced := by
  induction args with
  | nil => rw [unplacedArgs, List.map_nil]
  | cons arg rest ih => rw [unplacedArgs, ih, List.map_cons]

theorem TypeSyntax.unplacedSegments_eq (segments : List TypeSegment) :
    unplacedSegments segments = segments.map TypeSegment.unplaced := by
  induction segments with
  | nil => rw [unplacedSegments, List.map_nil]
  | cons segment rest ih => rw [unplacedSegments, ih, List.map_cons]

theorem TypeSyntax.unplacedElements_eq (elements : List (TupleElement TypeSyntax Ident)) :
    unplacedElements elements = elements.map unplacedElement := by
  induction elements with
  | nil => rw [unplacedElements, List.map_nil]
  | cons element rest ih => rw [unplacedElements, ih, List.map_cons]

theorem NamedType.unplaced_eq (qualifier? : Option Ident) (segments : List TypeSegment) (span : Span) :
    unplaced ⟨qualifier?, segments, span⟩ =
      ⟨qualifier?.map Ident.unplaced, segments.map TypeSegment.unplaced, .nowhere⟩ := by
  rw [unplaced, TypeSyntax.unplacedSegments_eq]

namespace TypeSyntax

mutual

/-- The text of a type says nothing about places. -/
theorem display_unplaced : ∀ type : TypeSyntax, type.unplaced.display = type.display
  | .predefined keyword _ => by rw [unplaced, display, display]
  | .named name => by rw [unplaced, display, display, displayName_unplaced name]
  | .array element rank _ => by rw [unplaced, display, display, display_unplaced element]
  | .nullable inner _ => by rw [unplaced, display, display, display_unplaced inner]
  | .pointer inner _ => by rw [unplaced, display, display, display_unplaced inner]
  | .tuple elements _ => by rw [unplaced, display, display, displayElements_unplaced elements]

theorem displayName_unplaced : ∀ name : Named TypeSyntax,
    NamedType.display (NamedType.unplaced name) = NamedType.display name
  | ⟨none, segments, _⟩ => by
      rw [NamedType.unplaced, Option.map_none, NamedType.display, NamedType.display,
        displaySegments_unplaced segments]
  | ⟨some qualifier, segments, _⟩ => by
      rw [NamedType.unplaced, Option.map_some, NamedType.display, NamedType.display,
        displaySegments_unplaced segments]
      rfl

theorem displaySegments_unplaced : ∀ segments : List (Segment TypeSyntax),
    displaySegments (unplacedSegments segments) = displaySegments segments
  | [] => by rw [unplacedSegments]
  | [segment] => by
      rw [unplacedSegments, unplacedSegments, displaySegments, displaySegments,
        displaySegment_unplaced segment]
  | segment :: next :: rest => by
      have hrest := displaySegments_unplaced (next :: rest)
      rw [unplacedSegments] at hrest
      rw [unplacedSegments, unplacedSegments, displaySegments_cons_cons, hrest,
        displaySegment_unplaced segment, displaySegments_cons_cons]

theorem displaySegment_unplaced : ∀ segment : Segment TypeSyntax,
    displaySegment (TypeSegment.unplaced segment) = displaySegment segment
  | ⟨name, []⟩ => by
      rw [TypeSegment.unplaced, unplacedArgs, displaySegment, displaySegment]
      rfl
  | ⟨name, arg :: args⟩ => by
      have hargs := displayArgs_unplaced (arg :: args)
      rw [unplacedArgs] at hargs
      rw [TypeSegment.unplaced, unplacedArgs, displaySegment, displaySegment, hargs]
      rfl

theorem displayArgs_unplaced : ∀ args : List TypeSyntax, displayArgs (unplacedArgs args) = displayArgs args
  | [] => by rw [unplacedArgs]
  | [arg] => by rw [unplacedArgs, unplacedArgs, displayArgs, displayArgs, display_unplaced arg]
  | arg :: next :: rest => by
      have hrest := displayArgs_unplaced (next :: rest)
      rw [unplacedArgs] at hrest
      rw [unplacedArgs, unplacedArgs, displayArgs_cons_cons, hrest, display_unplaced arg,
        displayArgs_cons_cons]

theorem displayElements_unplaced : ∀ elements : List (TupleElement TypeSyntax Ident),
    displayElements (unplacedElements elements) = displayElements elements
  | [] => by rw [unplacedElements]
  | [element] => by
      rw [unplacedElements, unplacedElements, displayElements, displayElements,
        displayElement_unplaced element]
  | element :: next :: rest => by
      have hrest := displayElements_unplaced (next :: rest)
      rw [unplacedElements] at hrest
      rw [unplacedElements, unplacedElements, displayElements_cons_cons, hrest,
        displayElement_unplaced element, displayElements_cons_cons]

theorem displayElement_unplaced : ∀ element : TupleElement TypeSyntax Ident,
    displayElement (unplacedElement element) = displayElement element
  | ⟨type, none⟩ =>
      by rw [unplacedElement, Option.map_none, displayElement, displayElement, display_unplaced type]
  | ⟨type, some name⟩ => by
      rw [unplacedElement, Option.map_some, displayElement, displayElement, display_unplaced type]
      rfl

end

end TypeSyntax

/-! ### Names of members -/

namespace Parser

/-- Names that differ in places only are written alike. -/
theorem like_of_unplaced {a b : NamedType} (h : NamedType.unplaced a = NamedType.unplaced b) :
    NamedType.Like a b := by
  obtain ⟨qualifier?, segments, span⟩ := a
  obtain ⟨qualifier?', segments', span'⟩ := b
  rw [NamedType.unplaced_eq, NamedType.unplaced_eq, Named.mk.injEq] at h
  obtain ⟨hqualifier, hsegments, -⟩ := h
  constructor
  · have hnames := congrArg (Option.map (·.name)) hqualifier
    rwa [Option.map_map, Option.map_map] at hnames
  · rw [← List.forall₂_eq_eq_eq, List.forall₂_map_left_iff, List.forall₂_map_right_iff] at hsegments
    refine hsegments.imp fun segment segment' hsegment => ⟨?_, ?_⟩
    · have hname := congrArg (·.name.name) hsegment
      cases segment
      cases segment'
      exact hname
    · rw [← TypeSyntax.displaySegment_unplaced segment, hsegment, TypeSyntax.displaySegment_unplaced]

/-- The names of a method's type parameters are found without regard to places. -/
theorem methodTypeParams_unplaced (name : NamedType) :
    methodTypeParams (NamedType.unplaced name) = (methodTypeParams name).map Ident.unplaced := by
  have hlast : ∀ name : NamedType, (NamedType.unplaced name).last? =
      name.last?.map TypeSegment.unplaced := by
    rintro ⟨qualifier?, segments, span⟩
    rw [NamedType.unplaced_eq]
    exact List.getLast?_map
  have hname : ∀ arg : TypeSyntax, (do return (← (← arg.unplaced.named?).last?).name : Option Ident) =
      (do return (← (← arg.named?).last?).name : Option Ident).map Ident.unplaced := by
    intro arg
    cases arg with
    | named name =>
        rw [TypeSyntax.unplaced]
        change (NamedType.unplaced name).last?.bind (fun segment => some segment.name) =
          (name.last?.bind fun segment => some segment.name).map Ident.unplaced
        rw [hlast]
        cases name.last? with
        | none => rfl
        | some segment =>
            cases segment
            rfl
    | predefined _ _ | array _ _ _ | nullable _ _ | pointer _ _ | tuple _ _ =>
        rw [TypeSyntax.unplaced]
        rfl
  unfold methodTypeParams
  rw [hlast]
  cases name.last? with
  | none => rfl
  | some segment =>
      obtain ⟨first, args⟩ := segment
      rw [Option.map_some, TypeSegment.unplaced, TypeSyntax.unplacedArgs_eq]
      dsimp only
      rw [List.filterMap_map, List.map_filterMap]
      exact List.filterMap_congr fun arg _ => hname arg

end Parser

/-! ### Expressions and attributes -/

/-- An expression without the places of its parts. -/
def Expr.unplaced : Expr → Expr
  | literal value _ => literal value .nowhere
  | name target => name (NamedType.unplaced target)
  | nameOf target _ => nameOf (NamedType.unplaced target) .nowhere
  | add lhs rhs _ => add lhs.unplaced rhs.unplaced .nowhere
  | negate operand _ => negate operand.unplaced .nowhere
  | paren inner _ => paren inner.unplaced .nowhere
  | unsupported _ => unsupported .nowhere

def ArgumentRole.unplaced : ArgumentRole → ArgumentRole
  | positional => positional
  | parameter name => parameter name.unplaced
  | property name => property name.unplaced

def ArgumentSyntax.unplaced (a : ArgumentSyntax) :
    ArgumentSyntax := ⟨a.role.unplaced, a.value.unplaced, .nowhere⟩

def AttributeSyntax.unplaced (a : AttributeSyntax) : AttributeSyntax :=
  ⟨NamedType.unplaced a.name, a.arguments.map (·.unplaced), .nowhere⟩

def AttributeList.unplaced (l : AttributeList) : AttributeList :=
  ⟨l.target?.map (·.unplaced), l.attributes.map (·.unplaced), .nowhere⟩

/-! ### Declarations -/

def UsingKind.unplaced : UsingKind → UsingKind
  | namespaceImport => namespaceImport
  | staticImport => staticImport
  | aliasImport name => aliasImport name.unplaced

def UsingDirective.unplaced (d : UsingDirective) : UsingDirective :=
  ⟨d.kind.unplaced, d.target.unplaced, d.isGlobal, .nowhere⟩

def AccessorBody.unplaced : AccessorBody → AccessorBody
  | missing => missing
  | block _ => block .nowhere
  | arrow _ => arrow .nowhere

def AccessorDecl.unplaced (d : AccessorDecl) :
    AccessorDecl := ⟨d.kind, d.modifiers, d.body.unplaced, .nowhere⟩

def PropertyBody.unplaced : PropertyBody → PropertyBody
  | arrow _ => arrow .nowhere
  | accessors list => accessors (list.map (·.unplaced))

def VariableDecl.unplaced (d : VariableDecl) : VariableDecl :=
  ⟨d.name.unplaced, d.initializer?.map (·.unplaced), .nowhere⟩

def FieldDecl.unplaced (d : FieldDecl) : FieldDecl :=
  ⟨d.attributes.map (·.unplaced), d.modifiers, d.type.unplaced, d.declarators.map (·.unplaced), .nowhere⟩

def PropertyDecl.unplaced (d : PropertyDecl) : PropertyDecl :=
  ⟨d.attributes.map (·.unplaced), d.modifiers, d.type.unplaced, d.name.unplaced, d.body.unplaced,
    d.initializer?.map (·.unplaced), .nowhere⟩

def MethodDecl.unplaced (d : MethodDecl) : MethodDecl :=
  ⟨d.attributes.map (·.unplaced), d.modifiers, d.returnType.unplaced, d.name.unplaced,
    d.typeParams.map (·.unplaced), .nowhere⟩

def EventDecl.unplaced (d : EventDecl) : EventDecl :=
  ⟨d.attributes.map (·.unplaced), d.modifiers, d.type.unplaced, d.names.map (·.unplaced), .nowhere⟩

mutual

/-- A type declaration without the places of its parts. -/
def TypeDecl.unplaced : TypeDeclOf MemberDecl → TypeDeclOf MemberDecl
  | ⟨id, attributes, modifiers, kind, name, typeParams, members, _⟩ =>
      ⟨id, attributes.map (·.unplaced), modifiers, kind, name.unplaced, typeParams.map (·.unplaced),
        MemberDecl.unplacedList members, .nowhere⟩

def MemberDecl.unplacedList : List MemberDecl → List MemberDecl
  | [] => []
  | decl :: rest => MemberDecl.unplaced decl :: MemberDecl.unplacedList rest

def MemberDecl.unplaced : MemberDecl → MemberDecl
  | .field decl => .field decl.unplaced
  | .property decl => .property decl.unplaced
  | .method decl => .method decl.unplaced
  | .event decl => .event decl.unplaced
  | .type decl => .type (TypeDecl.unplaced decl)
  | .other _ => .other .nowhere

end

theorem MemberDecl.unplacedList_eq (members : List MemberDecl) :
    unplacedList members = members.map unplaced := by
  induction members with
  | nil => rw [unplacedList, List.map_nil]
  | cons decl rest ih => rw [unplacedList, ih, List.map_cons]

mutual

/-- A namespace declaration without the places of its parts. -/
def NamespaceDecl.unplaced : NamespaceDeclOf NamespaceMember → NamespaceDeclOf NamespaceMember
  | ⟨name, fileScoped, usings, members, _⟩ =>
      ⟨name.map (·.unplaced), fileScoped, usings.map (·.unplaced), NamespaceMember.unplacedList members,
        .nowhere⟩

def NamespaceMember.unplacedList : List NamespaceMember → List NamespaceMember
  | [] => []
  | decl :: rest => NamespaceMember.unplaced decl :: NamespaceMember.unplacedList rest

def NamespaceMember.unplaced : NamespaceMember → NamespaceMember
  | .space decl => .space (NamespaceDecl.unplaced decl)
  | .type decl => .type (TypeDecl.unplaced decl)

end

theorem NamespaceMember.unplacedList_eq (members : List NamespaceMember) :
    unplacedList members = members.map unplaced := by
  induction members with
  | nil => rw [unplacedList, List.map_nil]
  | cons decl rest ih => rw [unplacedList, ih, List.map_cons]

/-- An error without its place. -/
def ParseError.unplaced (e : ParseError) : ParseError := ⟨e.cause, .nowhere⟩

/-- A source without the places of its parts. -/
def SourceFile.unplaced (f : SourceFile) : SourceFile :=
  ⟨f.source, f.usings.map (·.unplaced), f.attributes.map (·.unplaced), f.members.map (·.unplaced), .nowhere⟩

end Graft
