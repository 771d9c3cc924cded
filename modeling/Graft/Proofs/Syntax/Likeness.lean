/-
Module: Graft.Proofs.Syntax.Likeness
Purpose: Types and names that are written alike.
Main exports: TypeSyntax.Like, NamedType.Like, NamedType.Like.display_eq, NamedType.Like.memberName_eq

Where the parts of a type stand is not written.  Types are alike if they are written alike, and dotted names
are alike if their segments are.
-/
import Mathlib.Data.List.Forall2
import Graft.Parser.Member

namespace Graft

/-- Types that are written alike. -/
def TypeSyntax.Like (a b : TypeSyntax) : Prop := a.display = b.display

/-- Names that are the same, wherever they stand. -/
def Ident.Like (a b : Ident) : Prop := a.name = b.name

/-- Segments with the same name that are written alike. -/
structure TypeSegment.Like (a b : TypeSegment) : Prop where
  name : a.name.name = b.name.name
  display : TypeSyntax.displaySegment a = TypeSyntax.displaySegment b

/-- Dotted names whose segments are written alike. -/
structure NamedType.Like (a b : NamedType) : Prop where
  alias? : a.alias?.map (·.name) = b.alias?.map (·.name)
  segments : List.Forall₂ TypeSegment.Like a.segments b.segments

namespace TypeSyntax

theorem displaySegments_cons_cons (a b : TypeSegment) (rest : List TypeSegment) :
    displaySegments (a :: b :: rest) = displaySegment a ++ "." ++ displaySegments (b :: rest) := by
  rw [displaySegments]
  simp

theorem displaySegments_singleton (a : TypeSegment) : displaySegments [a] = displaySegment a := by
  rw [displaySegments]

theorem displayArgs_cons_cons (a b : TypeSyntax) (rest : List TypeSyntax) :
    displayArgs (a :: b :: rest) = a.display ++ ", " ++ displayArgs (b :: rest) := by
  rw [displayArgs]
  simp

theorem displayArgs_singleton (a : TypeSyntax) : displayArgs [a] = a.display := by
  rw [displayArgs]

theorem displayElements_cons_cons (a b : TupleElement TypeSyntax Ident)
    (rest : List (TupleElement TypeSyntax Ident)) :
    displayElements (a :: b :: rest) = displayElement a ++ ", " ++ displayElements (b :: rest) := by
  rw [displayElements]
  simp

theorem displaySegments_eq {list list' : List TypeSegment} (h : List.Forall₂ TypeSegment.Like list list') :
    displaySegments list = displaySegments list' := by
  induction h with
  | nil => rfl
  | cons hfirst hrest ih =>
      cases hrest with
      | nil => rw [displaySegments_singleton, displaySegments_singleton, hfirst.display]
      | cons _ _ => rw [displaySegments_cons_cons, displaySegments_cons_cons, hfirst.display, ih]

theorem displayArgs_eq {list list' : List TypeSyntax} (h : List.Forall₂ Like list list') :
    displayArgs list = displayArgs list' := by
  induction h with
  | nil => rfl
  | cons hfirst hrest ih =>
      cases hrest with
      | nil => rw [displayArgs_singleton, displayArgs_singleton, hfirst]
      | cons _ _ => rw [displayArgs_cons_cons, displayArgs_cons_cons, hfirst, ih]

theorem displaySegment_eq {name name' : Ident} {args args' : List TypeSyntax} (hname : name.Like name')
    (hargs : List.Forall₂ Like args args') : TypeSegment.Like ⟨name, args⟩ ⟨name', args'⟩ := by
  refine ⟨hname, ?_⟩
  cases hargs with
  | nil =>
      rw [displaySegment, displaySegment]
      exact hname
  | cons hfirst hrest =>
      rw [displaySegment, displaySegment, displayArgs_eq (.cons hfirst hrest)]
      rw [show name.name = name'.name from hname]

end TypeSyntax

namespace NamedType.Like

theorem display_eq {a b : NamedType} (h : NamedType.Like a b) :
    NamedType.display a = NamedType.display b := by
  obtain ⟨alias?, segments, span⟩ := a
  obtain ⟨alias?', segments', span'⟩ := b
  have hsegments := TypeSyntax.displaySegments_eq h.segments
  have halias : alias?.map (·.name) = alias?'.map (·.name) := h.alias?
  cases alias? with
  | none =>
      obtain rfl : alias?' = none := Option.map_eq_none_iff.1 halias.symm
      rw [display, display]
      exact hsegments
  | some name =>
      obtain ⟨name', rfl, hname⟩ := Option.map_eq_some_iff.1 halias.symm
      rw [display, display, hname]
      exact congrArg _ hsegments

/-- The name of a member is written like its dotted name without the last type arguments. -/
theorem memberName_name (alias? : Option Ident) (init : List TypeSegment) (last : TypeSegment)
    (span : Span) :
    (Parser.memberName ⟨alias?, init ++ [last], span⟩).name =
      NamedType.display ⟨alias?, init ++ [⟨last.name, []⟩], span⟩ := by
  have hlast : (init ++ [last]).getLast? = some last := List.getLast?_concat
  have hinit : (init ++ [last]).dropLast = init := List.dropLast_concat
  unfold Parser.memberName
  split
  · rename_i segment halias hsegments
    dsimp only at halias hsegments
    cases init with
    | nil =>
        obtain rfl : last = segment := by simpa using hsegments
        rw [halias, display, List.nil_append, TypeSyntax.displaySegments_singleton,
          TypeSyntax.displaySegment]
    | cons _ _ => simp at hsegments
  · dsimp only
    rw [hlast, hinit]

/-- Names of members that are written alike are the same. -/
theorem memberName_eq {a b : NamedType} (h : NamedType.Like a b) :
    (Parser.memberName a).name = (Parser.memberName b).name := by
  have hreverse := List.rel_reverse h.segments
  obtain ⟨alias?, segments, span⟩ := a
  obtain ⟨alias?', segments', span'⟩ := b
  dsimp only at hreverse
  cases hinit : segments.reverse with
  | nil =>
      rw [hinit] at hreverse
      have hnil := List.reverse_eq_nil_iff.1 hinit
      have hnil' := List.reverse_eq_nil_iff.1 (List.forall₂_nil_left_iff.1 hreverse)
      have hname : ∀ (alias? : Option Ident) (span : Span),
          (Parser.memberName ⟨alias?, [], span⟩).name = NamedType.display ⟨alias?, [], span⟩ :=
        fun alias? _ => by cases alias? <;> rfl
      have hdisplay := h.display_eq
      rw [hnil, hnil'] at hdisplay ⊢
      rw [hname, hname, hdisplay]
  | cons last init =>
      rw [hinit] at hreverse
      obtain ⟨last', init', hlast, hrest, hinit'⟩ := List.forall₂_cons_left_iff.1 hreverse
      rw [List.reverse_eq_cons_iff.1 hinit, List.reverse_eq_cons_iff.1 hinit', memberName_name,
        memberName_name]
      refine display_eq ⟨h.alias?, List.rel_append (List.rel_reverse hrest) (.cons ?_ .nil)⟩
      exact TypeSyntax.displaySegment_eq hlast.name .nil

end NamedType.Like

end Graft
