/-
Module: Graft.Proofs.Syntax.Named
Purpose: Properties of the names in declarations.
Main exports: TypeDeclOf.Named, NamespaceMember.AllNamed
-/
import Graft.Syntax.Decl

namespace Graft

mutual

/-- The names of a type, of its type parameters and of the types in it satisfy `P`. -/
def TypeDeclOf.Named (P : Ident → Prop) : TypeDeclOf MemberDecl → Prop
  | ⟨_, _, _, _, name, typeParams, members, _⟩ =>
      P name ∧ (∀ param ∈ typeParams, P param) ∧ MemberDecl.AllNamed P members

/-- The names of the types among members satisfy `P`. -/
def MemberDecl.AllNamed (P : Ident → Prop) : List MemberDecl → Prop
  | [] => True
  | decl :: rest => MemberDecl.Named P decl ∧ MemberDecl.AllNamed P rest

/-- The names of the type that a member is satisfy `P`. -/
def MemberDecl.Named (P : Ident → Prop) : MemberDecl → Prop
  | .type decl => TypeDeclOf.Named P decl
  | .field _ | .property _ | .method _ | .event _ | .other _ => True

end

mutual

/-- The names of a namespace and of what is declared in it satisfy `P`. -/
def NamespaceDeclOf.Named (P : Ident → Prop) : NamespaceDeclOf NamespaceMember → Prop
  | ⟨name, _, _, members, _⟩ => (∀ segment ∈ name, P segment) ∧ NamespaceMember.AllNamed P members

/-- The names of the members of a namespace satisfy `P`. -/
def NamespaceMember.AllNamed (P : Ident → Prop) : List NamespaceMember → Prop
  | [] => True
  | .space decl :: rest => NamespaceDeclOf.Named P decl ∧ NamespaceMember.AllNamed P rest
  | .type decl :: rest => TypeDeclOf.Named P decl ∧ NamespaceMember.AllNamed P rest

end

variable {P Q : Ident → Prop}

mutual

/-- Names that satisfy a property satisfy one that follows from it. -/
theorem TypeDeclOf.Named.mono (h : ∀ i, P i → Q i) :
    ∀ decl : TypeDeclOf MemberDecl, TypeDeclOf.Named P decl → TypeDeclOf.Named Q decl
  | ⟨_, _, _, _, _, _, _, _⟩, named => by
      simp only [TypeDeclOf.Named] at named ⊢
      exact ⟨h _ named.1, fun i hi => h i (named.2.1 i hi),
        MemberDecl.AllNamed.mono h _ named.2.2⟩

theorem MemberDecl.AllNamed.mono (h : ∀ i, P i → Q i) :
    ∀ members : List MemberDecl, MemberDecl.AllNamed P members → MemberDecl.AllNamed Q members
  | [], _ => by simp [MemberDecl.AllNamed]
  | decl :: rest, named => by
      simp only [MemberDecl.AllNamed] at named ⊢
      exact ⟨MemberDecl.Named.mono h decl named.1, MemberDecl.AllNamed.mono h rest named.2⟩

theorem MemberDecl.Named.mono (h : ∀ i, P i → Q i) :
    ∀ decl : MemberDecl, MemberDecl.Named P decl → MemberDecl.Named Q decl
  | .type decl, named => by
      simp only [MemberDecl.Named] at named ⊢
      exact TypeDeclOf.Named.mono h decl named
  | .field _, _ | .property _, _ | .method _, _ | .event _, _ | .other _, _ => by
      simp [MemberDecl.Named]

end

mutual

theorem NamespaceDeclOf.Named.mono (h : ∀ i, P i → Q i) :
    ∀ decl : NamespaceDeclOf NamespaceMember, NamespaceDeclOf.Named P decl →
      NamespaceDeclOf.Named Q decl
  | ⟨_, _, _, _, _⟩, named => by
      simp only [NamespaceDeclOf.Named] at named ⊢
      exact ⟨fun i hi => h i (named.1 i hi), NamespaceMember.AllNamed.mono h _ named.2⟩

/-- Names of members that satisfy a property satisfy one that follows from it. -/
theorem NamespaceMember.AllNamed.mono (h : ∀ i, P i → Q i) :
    ∀ members : List NamespaceMember, NamespaceMember.AllNamed P members →
      NamespaceMember.AllNamed Q members
  | [], _ => by simp [NamespaceMember.AllNamed]
  | .space decl :: rest, named => by
      simp only [NamespaceMember.AllNamed] at named ⊢
      exact ⟨NamespaceDeclOf.Named.mono h decl named.1, NamespaceMember.AllNamed.mono h rest named.2⟩
  | .type decl :: rest, named => by
      simp only [NamespaceMember.AllNamed] at named ⊢
      exact ⟨TypeDeclOf.Named.mono h decl named.1, NamespaceMember.AllNamed.mono h rest named.2⟩

end

theorem MemberDecl.allNamed_iff {members : List MemberDecl} :
    AllNamed P members ↔ ∀ m ∈ members, Named P m := by
  induction members with
  | nil => simp [AllNamed]
  | cons m rest ih => simp [AllNamed, ih]

theorem NamespaceMember.allNamed_nil (P : Ident → Prop) : AllNamed P [] := by simp [AllNamed]

theorem NamespaceMember.allNamed_append {a b : List NamespaceMember} :
    AllNamed P (a ++ b) ↔ AllNamed P a ∧ AllNamed P b := by
  induction a with
  | nil => simp [AllNamed]
  | cons m rest ih => cases m <;> simp [AllNamed, ih, and_assoc]

end Graft
