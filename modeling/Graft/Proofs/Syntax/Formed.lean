/-
Module: Graft.Proofs.Syntax.Formed
Purpose: Types with the types in them, as they are written and as they are meant.
Main exports: TypeSyntax.parts, TypeSyntax.induct, TypeSyntax.Formed, TypeRef.parts, TypeRef.induct,
  TypeRef.Formed

A property of a whole type is often that all types in it have some property that looks at no further than
their names.  The types in a type are listed for that, and what is shown of all types is shown from
the types directly in them.
-/
import Graft.Symbol.TypeRef
import Graft.Token.Kind

namespace Graft

/-! ### Written types -/

mutual

/-- A written type and all types in it. -/
def TypeSyntax.parts : TypeSyntax → List TypeSyntax
  | .predefined keyword span => [.predefined keyword span]
  | .named name => .named name :: NamedType.parts name
  | .array element rank span => .array element rank span :: element.parts
  | .nullable inner span => .nullable inner span :: inner.parts
  | .pointer inner span => .pointer inner span :: inner.parts
  | .tuple elements span => .tuple elements span :: TypeSyntax.elementParts elements

def NamedType.parts : Named TypeSyntax → List TypeSyntax
  | ⟨_, segments, _⟩ => TypeSyntax.segmentParts segments

def TypeSyntax.segmentParts : List (Segment TypeSyntax) → List TypeSyntax
  | [] => []
  | segment :: rest => TypeSegment.parts segment ++ TypeSyntax.segmentParts rest

def TypeSegment.parts : Segment TypeSyntax → List TypeSyntax
  | ⟨_, args⟩ => TypeSyntax.argParts args

def TypeSyntax.argParts : List TypeSyntax → List TypeSyntax
  | [] => []
  | arg :: rest => arg.parts ++ TypeSyntax.argParts rest

def TypeSyntax.elementParts : List (TupleElement TypeSyntax Ident) → List TypeSyntax
  | [] => []
  | element :: rest => TypeSyntax.elementPart element ++ TypeSyntax.elementParts rest

def TypeSyntax.elementPart : TupleElement TypeSyntax Ident → List TypeSyntax
  | ⟨type, _⟩ => type.parts

end

namespace TypeSyntax

theorem argParts_eq (args : List TypeSyntax) : argParts args = args.flatMap parts := by
  induction args with
  | nil => rw [argParts, List.flatMap_nil]
  | cons arg rest ih => rw [argParts, ih, List.flatMap_cons]

theorem segmentParts_eq (segments : List TypeSegment) :
    segmentParts segments = segments.flatMap fun segment => segment.args.flatMap parts := by
  induction segments with
  | nil => rw [segmentParts, List.flatMap_nil]
  | cons segment rest ih => rw [segmentParts, ih, List.flatMap_cons, TypeSegment.parts, argParts_eq]

theorem elementParts_eq (elements : List (TupleElement TypeSyntax Ident)) :
    elementParts elements = elements.flatMap (·.type.parts) := by
  induction elements with
  | nil => rw [elementParts, List.flatMap_nil]
  | cons element rest ih => rw [elementParts, ih, List.flatMap_cons, elementPart]

/-- The types directly in a type. -/
def inner : TypeSyntax → List TypeSyntax
  | predefined _ _ => []
  | named name => name.segments.flatMap (·.args)
  | array type _ _ | nullable type _ | pointer type _ => [type]
  | tuple elements _ => elements.map (·.type)

theorem sizeOf_inner {type part : TypeSyntax} (h : part ∈ type.inner) : sizeOf part < sizeOf type := by
  cases type with
  | predefined _ _ => cases h
  | named name =>
      obtain ⟨segment, hsegment, harg⟩ := List.mem_flatMap.1 h
      obtain ⟨_, segments, _⟩ := name
      obtain ⟨_, args⟩ := segment
      have hin := List.sizeOf_lt_of_mem hsegment
      have hout := List.sizeOf_lt_of_mem harg
      simp only [named.sizeOf_spec, Named.mk.sizeOf_spec, Segment.mk.sizeOf_spec] at hin hout ⊢
      omega
  | array _ _ _ | nullable _ _ | pointer _ _ =>
      obtain rfl := List.mem_singleton.1 h
      simp only [array.sizeOf_spec, nullable.sizeOf_spec, pointer.sizeOf_spec]
      omega
  | tuple elements _ =>
      obtain ⟨⟨part, _⟩, helement, rfl⟩ := List.mem_map.1 h
      have hin := List.sizeOf_lt_of_mem helement
      simp only [tuple.sizeOf_spec, TupleElement.mk.sizeOf_spec] at hin ⊢
      omega

/-- What holds of a type if it holds of the types directly in it holds of all types. -/
@[elab_as_elim]
theorem induct {P : TypeSyntax → Prop} (step : ∀ type : TypeSyntax, (∀ part ∈ type.inner, P part) → P type)
    (type : TypeSyntax) : P type :=
  step type fun part _ => induct step part
termination_by sizeOf type
decreasing_by exact sizeOf_inner ‹_›

theorem parts_eq (type : TypeSyntax) : type.parts = type :: type.inner.flatMap parts := by
  cases type with
  | predefined _ _ => rw [parts, inner, List.flatMap_nil]
  | named name => rw [parts, NamedType.parts, segmentParts_eq, inner, List.flatMap_assoc]
  | array _ _ _ | nullable _ _ | pointer _ _ => rw [parts, inner, List.flatMap_singleton]
  | tuple elements _ => rw [parts, elementParts_eq, inner, List.flatMap_map]

/-- The type and all types in it satisfy `P`. -/
def Every (P : TypeSyntax → Prop) (type : TypeSyntax) : Prop := ∀ part ∈ type.parts, P part

theorem every_iff {P : TypeSyntax → Prop} {type : TypeSyntax} :
    type.Every P ↔ P type ∧ ∀ part ∈ type.inner, part.Every P := by
  simp only [Every, parts_eq type, List.forall_mem_cons, List.forall_mem_flatMap]

/-- What reading makes sure of, where names satisfy `P`: a keyword names a built-in type, a dotted name has
segments, an array dimensions and a tuple elements. -/
def Formed (P : String → Prop) : TypeSyntax → Prop
  | predefined keyword _ => keyword ∈ Keyword.predefinedTypes
  | named name => name.segments ≠ [] ∧ (∀ qualifier ∈ name.alias?, P qualifier.name) ∧
      ∀ segment ∈ name.segments, P segment.name.name
  | array _ rank _ => 0 < rank
  | nullable _ _ | pointer _ _ => True
  | tuple elements _ => elements ≠ [] ∧ ∀ element ∈ elements, ∀ name ∈ element.name?, P name.name

end TypeSyntax

/-! ### Types that are meant -/

mutual

/-- A type that is meant and all types in it. -/
def TypeRef.parts : TypeRef → List TypeRef
  | .keyword name => [.keyword name]
  | .typeParam name => [.typeParam name]
  | .named definition? written args => .named definition? written args :: TypeRef.argParts args
  | .array element rank => .array element rank :: element.parts
  | .nullable inner => .nullable inner :: inner.parts
  | .pointer inner => .pointer inner :: inner.parts
  | .tuple elements => .tuple elements :: TypeRef.elementParts elements

def TypeRef.argParts : List TypeRef → List TypeRef
  | [] => []
  | arg :: rest => arg.parts ++ TypeRef.argParts rest

def TypeRef.elementParts : List (TupleElement TypeRef String) → List TypeRef
  | [] => []
  | element :: rest => TypeRef.elementPart element ++ TypeRef.elementParts rest

def TypeRef.elementPart : TupleElement TypeRef String → List TypeRef
  | ⟨type, _⟩ => type.parts

end

namespace TypeRef

theorem argParts_eq (args : List TypeRef) : argParts args = args.flatMap parts := by
  induction args with
  | nil => rw [argParts, List.flatMap_nil]
  | cons arg rest ih => rw [argParts, ih, List.flatMap_cons]

theorem elementParts_eq (elements : List (TupleElement TypeRef String)) :
    elementParts elements = elements.flatMap (·.type.parts) := by
  induction elements with
  | nil => rw [elementParts, List.flatMap_nil]
  | cons element rest ih => rw [elementParts, ih, List.flatMap_cons, elementPart]

/-- The types directly in a type. -/
def inner : TypeRef → List TypeRef
  | keyword _ | typeParam _ => []
  | named _ _ args => args
  | array type _ | nullable type | pointer type => [type]
  | tuple elements => elements.map (·.type)

theorem sizeOf_inner {type part : TypeRef} (h : part ∈ type.inner) : sizeOf part < sizeOf type := by
  cases type with
  | keyword _ | typeParam _ => cases h
  | named _ _ args =>
      have harg : sizeOf part < sizeOf args := List.sizeOf_lt_of_mem h
      simp only [named.sizeOf_spec]
      omega
  | array _ _ | nullable _ | pointer _ =>
      obtain rfl := List.mem_singleton.1 h
      simp only [array.sizeOf_spec, nullable.sizeOf_spec, pointer.sizeOf_spec]
      omega
  | tuple elements =>
      obtain ⟨⟨part, _⟩, helement, rfl⟩ := List.mem_map.1 h
      have hin := List.sizeOf_lt_of_mem helement
      simp only [tuple.sizeOf_spec, TupleElement.mk.sizeOf_spec] at hin ⊢
      omega

/-- What holds of a type if it holds of the types directly in it holds of all types. -/
@[elab_as_elim]
theorem induct {P : TypeRef → Prop} (step : ∀ type : TypeRef, (∀ part ∈ type.inner, P part) → P type)
    (type : TypeRef) : P type :=
  step type fun part _ => induct step part
termination_by sizeOf type
decreasing_by exact sizeOf_inner ‹_›

theorem parts_eq (type : TypeRef) : type.parts = type :: type.inner.flatMap parts := by
  cases type with
  | keyword _ | typeParam _ => rw [parts, inner, List.flatMap_nil]
  | named _ _ args => rw [parts, argParts_eq, inner]
  | array _ _ | nullable _ | pointer _ => rw [parts, inner, List.flatMap_singleton]
  | tuple elements => rw [parts, elementParts_eq, inner, List.flatMap_map]

/-- The type and all types in it satisfy `P`. -/
def Every (P : TypeRef → Prop) (type : TypeRef) : Prop := ∀ part ∈ type.parts, P part

theorem every_iff {P : TypeRef → Prop} {type : TypeRef} :
    type.Every P ↔ P type ∧ ∀ part ∈ type.inner, part.Every P := by
  simp only [Every, parts_eq type, List.forall_mem_cons, List.forall_mem_flatMap]

/-- What a type that is meant has from how it is written, where names satisfy `P`. -/
def Formed (P : String → Prop) : TypeRef → Prop
  | keyword name => name ∈ Keyword.predefinedTypes
  | array _ rank => 0 < rank
  | typeParam _ | named _ _ _ | nullable _ | pointer _ => True
  | tuple elements => elements ≠ [] ∧ ∀ element ∈ elements, ∀ name ∈ element.name?, P name

end TypeRef

end Graft
