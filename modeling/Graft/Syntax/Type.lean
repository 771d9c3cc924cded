/-
Module: Graft.Syntax.Type
Purpose: Types as they are written.
Main exports: Ident, TypeSyntax, NamedType, TypeSyntax.display
-/
import Graft.Source.Span

namespace Graft

/-- A name where it is written, without the `@` that may mark it. -/
structure Ident where
  name : String
  span : Span
deriving DecidableEq, Repr, Inhabited

/-- One segment of a dotted name with its type arguments, which are of type `τ`. -/
structure Segment (τ : Type) where
  name : Ident
  args : List τ
deriving DecidableEq, Repr, Inhabited

/-- A dotted name, possibly after `alias::`. -/
structure Named (τ : Type) where
  alias? : Option Ident
  segments : List (Segment τ)
  span : Span
deriving DecidableEq, Repr, Inhabited

/-- An element of a tuple type and its name, if it has one. -/
structure TupleElement (τ : Type) (ι : Type) where
  type : τ
  name? : Option ι
deriving DecidableEq, Repr, Inhabited

/-- A type as it is written. -/
inductive TypeSyntax where
  | predefined (keyword : String) (span : Span)
  | named (name : Named TypeSyntax)
  | array (element : TypeSyntax) (rank : Nat) (span : Span)
  | nullable (inner : TypeSyntax) (span : Span)
  | pointer (inner : TypeSyntax) (span : Span)
  | tuple (elements : List (TupleElement TypeSyntax Ident)) (span : Span)
deriving Repr, Inhabited

/-- A dotted name whose arguments are types. -/
abbrev NamedType := Named TypeSyntax

/-- One segment of a dotted name whose arguments are types. -/
abbrev TypeSegment := Segment TypeSyntax

namespace Named

variable {τ : Type}

/-- The last segment. -/
def last? (n : Named τ) : Option (Segment τ) := n.segments.getLast?

/-- The simple names of the segments. -/
def path (n : Named τ) : List String := n.segments.map (·.name.name)

/-- The simple names with points between them. -/
def dotted (n : Named τ) : String := ".".intercalate n.path

/-- The name is looked up from the outermost namespace. -/
def isGlobal (n : Named τ) : Bool := n.alias?.any (·.name = "global")

end Named

mutual

/-- The text of a type. -/
def TypeSyntax.display : TypeSyntax → String
  | .predefined keyword _ => keyword
  | .named name => NamedType.display name
  | .array element rank _ =>
      element.display ++ "[" ++ String.ofList (List.replicate (rank - 1) ',') ++ "]"
  | .nullable inner _ => inner.display ++ "?"
  | .pointer inner _ => inner.display ++ "*"
  | .tuple elements _ => "(" ++ TypeSyntax.displayElements elements ++ ")"

/-- The text of a dotted name. -/
def NamedType.display : Named TypeSyntax → String
  | ⟨none, segments, _⟩ => TypeSyntax.displaySegments segments
  | ⟨some qualifier, segments, _⟩ =>
      qualifier.name ++ "::" ++ TypeSyntax.displaySegments segments

/-- The text of segments with points between them. -/
def TypeSyntax.displaySegments : List (Segment TypeSyntax) → String
  | [] => ""
  | [segment] => TypeSyntax.displaySegment segment
  | segment :: rest =>
      TypeSyntax.displaySegment segment ++ "." ++ TypeSyntax.displaySegments rest

/-- The text of a segment. -/
def TypeSyntax.displaySegment : Segment TypeSyntax → String
  | ⟨name, []⟩ => name.name
  | ⟨name, arg :: args⟩ => name.name ++ "<" ++ TypeSyntax.displayArgs (arg :: args) ++ ">"

/-- The text of type arguments with commas between them. -/
def TypeSyntax.displayArgs : List TypeSyntax → String
  | [] => ""
  | [arg] => arg.display
  | arg :: rest => arg.display ++ ", " ++ TypeSyntax.displayArgs rest

/-- The text of the elements of a tuple with commas between them. -/
def TypeSyntax.displayElements : List (TupleElement TypeSyntax Ident) → String
  | [] => ""
  | [element] => TypeSyntax.displayElement element
  | element :: rest =>
      TypeSyntax.displayElement element ++ ", " ++ TypeSyntax.displayElements rest

/-- The text of an element of a tuple. -/
def TypeSyntax.displayElement : TupleElement TypeSyntax Ident → String
  | ⟨type, none⟩ => type.display
  | ⟨type, some name⟩ => type.display ++ " " ++ name.name

end

namespace TypeSyntax

/-- Where a type is written. -/
def span : TypeSyntax → Span
  | predefined _ span | array _ _ span | nullable _ span | pointer _ span | tuple _ span => span
  | named name => name.span

/-- The dotted name that a type is. -/
def named? : TypeSyntax → Option NamedType
  | named name => some name
  | _ => none

end TypeSyntax

end Graft
