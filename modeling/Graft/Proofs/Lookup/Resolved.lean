/-
Module: Graft.Proofs.Lookup.Resolved
Purpose: What the resolution of a written type depends on.
Main statements: Lookup.SameNames, Lookup.SameNames.resolve

A written type is resolved name by name.  All that counts is which simple names are type parameters
and which type each name stands for, if it stands for exactly one.
-/
import Graft.Lookup

namespace Graft.Lookup

/-- Names stand for the same types and the same type parameters in both scopes. -/
structure SameNames (r : Registry) (s : Scope) (r' : Registry) (s' : Scope) : Prop where
  isTypeParam : ∀ name, isTypeParam r s name = isTypeParam r' s' name
  type : ∀ n, (type r s n).toOption = (type r' s' n).toOption

namespace SameNames

variable {r r' : Registry} {s s' : Scope}

theorem typeParam? (h : SameNames r s r' s') (n : NamedType) :
    Lookup.typeParam? r s n = Lookup.typeParam? r' s' n := by
  have htest : Lookup.isTypeParam r s = Lookup.isTypeParam r' s' := funext h.isTypeParam
  rw [Lookup.typeParam?.eq_def, Lookup.typeParam?.eq_def, htest]

mutual

/-- A written type is resolved alike in both scopes. -/
theorem resolve (h : SameNames r s r' s') :
    ∀ type : TypeSyntax, Lookup.resolve r s type = Lookup.resolve r' s' type
  | .predefined _ _ => by rw [Lookup.resolve, Lookup.resolve]
  | .named n => by rw [Lookup.resolve, Lookup.resolve, h.resolveNamed n]
  | .array element _ _ => by rw [Lookup.resolve, Lookup.resolve, h.resolve element]
  | .nullable inner _ => by rw [Lookup.resolve, Lookup.resolve, h.resolve inner]
  | .pointer inner _ => by rw [Lookup.resolve, Lookup.resolve, h.resolve inner]
  | .tuple elements _ => by rw [Lookup.resolve, Lookup.resolve, h.resolveElements elements]

theorem resolveNamed (h : SameNames r s r' s') :
    ∀ n : Named TypeSyntax, Lookup.resolveNamed r s n = Lookup.resolveNamed r' s' n
  | ⟨_, segments, _⟩ => by
      rw [Lookup.resolveNamed, Lookup.resolveNamed, h.typeParam?, h.type, h.resolveSegments segments]

theorem resolveSegments (h : SameNames r s r' s') : ∀ segments : List (Segment TypeSyntax),
    Lookup.resolveSegments r s segments = Lookup.resolveSegments r' s' segments
  | [] => by rw [Lookup.resolveSegments, Lookup.resolveSegments]
  | segment :: rest => by
      rw [Lookup.resolveSegments, Lookup.resolveSegments, h.resolveSegment segment,
        h.resolveSegments rest]

theorem resolveSegment (h : SameNames r s r' s') : ∀ segment : Segment TypeSyntax,
    Lookup.resolveSegment r s segment = Lookup.resolveSegment r' s' segment
  | ⟨_, args⟩ => by rw [Lookup.resolveSegment, Lookup.resolveSegment, h.resolveArgs args]

theorem resolveArgs (h : SameNames r s r' s') : ∀ args : List TypeSyntax,
    Lookup.resolveArgs r s args = Lookup.resolveArgs r' s' args
  | [] => by rw [Lookup.resolveArgs, Lookup.resolveArgs]
  | arg :: rest => by
      rw [Lookup.resolveArgs, Lookup.resolveArgs, h.resolve arg, h.resolveArgs rest]

theorem resolveElements (h : SameNames r s r' s') :
    ∀ elements : List (TupleElement TypeSyntax Ident),
      Lookup.resolveElements r s elements = Lookup.resolveElements r' s' elements
  | [] => by rw [Lookup.resolveElements, Lookup.resolveElements]
  | element :: rest => by
      rw [Lookup.resolveElements, Lookup.resolveElements, h.resolveElement element,
        h.resolveElements rest]

theorem resolveElement (h : SameNames r s r' s') : ∀ element : TupleElement TypeSyntax Ident,
    Lookup.resolveElement r s element = Lookup.resolveElement r' s' element
  | ⟨type, _⟩ => by rw [Lookup.resolveElement, Lookup.resolveElement, h.resolve type]

end

end SameNames

end Graft.Lookup
