/-
Module: Graft.Proofs.Parser.TypeDecls
Purpose: What is in the types that a source declares.
Main exports: SyntaxNode.Types, TypeDecl.Filled, MemberDecl.Filled, Parser.Reads.sourceFile_filled

What holds of each property where it is read holds of all properties of a source, since no production changes
a property that it is given.  What is between the braces of an enumeration is passed,
so that it has no members.
-/
import Graft.Proofs.Parser.Files
import Graft.Proofs.Parser.Numbers

namespace Graft

/-! ### Types of a source -/

/-- The types among nodes satisfy `P`. -/
def SyntaxNode.Types (P : TypeDecl → Prop) (nodes : List SyntaxNode) :
    Prop := ∀ d ∈ nodes.filterMap type?, P d

namespace SyntaxNode

variable {P : TypeDecl → Prop}

theorem types_append {a b : List SyntaxNode} : Types P (a ++ b) ↔ Types P a ∧ Types P b := by
  unfold Types
  rw [List.filterMap_append]
  exact List.forall_mem_append

theorem types_ofMembers {members : List MemberDecl} (h : ∀ m ∈ members, Types P (ofMember m)) :
    Types P (ofMembers members) := by
  induction members with
  | nil =>
      rw [ofMembers]
      exact nofun
  | cons m rest ih =>
      rw [ofMembers]
      exact types_append.2 ⟨h m List.mem_cons_self, ih fun n hn => h n (List.mem_cons_of_mem m hn)⟩

/-- What is no type has none in it. -/
theorem types_ofMember {m : MemberDecl} (h : ∀ d, m ≠ .type d) : Types P (ofMember m) := by
  cases m with
  | type d => exact absurd rfl (h d)
  | field _ | property _ | method _ | event _ | other _ =>
      rw [ofMember]
      exact nofun

theorem types_ofType {decl : TypeDecl} (self : P decl) (h : ∀ m ∈ decl.members, Types P (ofMember m)) :
    Types P (ofType decl) := by
  obtain ⟨id, attributes, modifiers, kind, name, typeParams, members, span⟩ := decl
  rw [ofType]
  exact List.forall_mem_cons.2 ⟨self, types_ofMembers h⟩

theorem types_ofNamespaceMembers_nil : Types P (ofNamespaceMembers []) := by
  rw [ofNamespaceMembers]
  exact nofun

theorem types_ofNamespaceMembers_append {a b : List NamespaceMember} (ha : Types P (ofNamespaceMembers a))
    (hb : Types P (ofNamespaceMembers b)) : Types P (ofNamespaceMembers (a ++ b)) := by
  induction a with
  | nil => exact hb
  | cons m rest ih =>
      cases m <;> rw [ofNamespaceMembers] at ha <;> rw [List.cons_append, ofNamespaceMembers] <;>
        exact types_append.2 ⟨(types_append.1 ha).1, ih (types_append.1 ha).2⟩

theorem types_directives {usings : List UsingDirective} {nodes : List SyntaxNode} :
    Types P (usings.map directive ++ nodes) ↔ Types P nodes := by
  unfold Types
  rw [filterMap_directives]

theorem types_ofNamespace {decl : NamespaceDecl} (h : Types P (ofNamespaceMembers decl.members)) :
    Types P (ofNamespace decl) := by
  obtain ⟨name, fileScoped, usings, members, span⟩ := decl
  rw [ofNamespace]
  exact types_directives.2 h

end SyntaxNode

open SyntaxNode (Types)

/-- What is in a type that is read: its properties satisfy `P`, and an enumeration has no members. -/
structure TypeDecl.Filled (P : PropertyDecl → Prop) (d : TypeDecl) : Prop where
  properties : ∀ p, .property p ∈ d.members → P p
  empty : d.kind = .enumKind → d.members = []

/-- A member satisfies `P` if it is a property, and the types in it are filled. -/
structure MemberDecl.Filled (P : PropertyDecl → Prop) (m : MemberDecl) : Prop where
  self : ∀ p, m = .property p → P p
  inside : Types (TypeDecl.Filled P) (SyntaxNode.ofMember m)

variable {P : PropertyDecl → Prop}

namespace MemberDecl.Filled

theorem ofType {d : TypeDecl} (h : Types (TypeDecl.Filled P) (SyntaxNode.ofType d)) : Filled P (.type d) :=
  ⟨nofun, by rwa [SyntaxNode.ofMember]⟩

theorem ofProperty {p : PropertyDecl} (h : P p) : Filled P (.property p) :=
  ⟨fun _ hq => MemberDecl.property.inj hq ▸ h, SyntaxNode.types_ofMember nofun⟩

/-- Other members neither are properties nor have types in them. -/
theorem plain {m : MemberDecl} (notProperty : ∀ p, m ≠ .property p) (notType : ∀ d, m ≠ .type d) :
    m.Filled P :=
  ⟨fun p hp => absurd hp (notProperty p), SyntaxNode.types_ofMember notType⟩

end MemberDecl.Filled

theorem TypeDecl.filled_ofType {d : TypeDecl} (h : ∀ m ∈ d.members, m.Filled P)
    (empty : d.kind = .enumKind → d.members = []) : Types (TypeDecl.Filled P) (SyntaxNode.ofType d) :=
  SyntaxNode.types_ofType ⟨fun p hp => (h _ hp).self p rfl, empty⟩ fun m hm => (h m hm).inside

variable {all : List Token} {i : Nat}

namespace Parser.Reads

variable {α β : Type} {p : Parser α} {f : α → Parser β}

/-- What is known of a value, whatever was read before it. -/
theorem after {Q : Nat → α → Prop} {R : β → Prop} (hp : Reads all i Q p)
    (hf : ∀ j a, Reads all j (fun _ b => R b) (f a)) : Reads all i (fun _ b => R b) (p >>= f) :=
  hp.bind fun j a _ _ => (hf j a).mono fun _ _ _ _ h _ => h

/-- A span ends where the parser stands. -/
theorem stand {start : Span} {f : Span → Parser α} {Q : Nat → α → Prop}
    (h : ∀ span, Reads all i Q (f span)) : Reads all i Q (Parser.spanFrom start >>= f) :=
  fun s hs => .spanFrom (h _ s hs)

/-! ### Members -/

theorem otherMember_filled (head : MemberHead) :
    Reads all i (fun _ m => m.Filled P) (Parser.otherMember head) :=
  (Even.skipToBody i).after fun j _ => (Even.skipBody j).after fun _ _ => stand fun _ =>
    .pure (.plain nofun nofun)

theorem method_filled (head : MemberHead) (type : TypeSyntax) (name : NamedType) :
    Reads all i (fun _ m => m.Filled P) (Parser.method head type name) :=
  skipGroup.after fun j _ => (Even.skipToBody j).after fun k _ => (Even.skipBody k).after fun _ _ =>
    stand fun _ => .pure (.plain nofun nofun)

theorem field_filled (head : MemberHead) (type : TypeSyntax) (name : NamedType) :
    Reads all i (fun _ m => m.Filled P) (Parser.field head type name) :=
  (Even.variableAfter _ i).after fun _ _ =>
    (Even.many (Even.whenever_eat (by decide) (.plain rfl rfl) fun _ =>
    Opens.ident.bind fun _ _ => Even.variableAfter _ _) _).after fun _ _ =>
      (expect (by decide)).after fun _ _ =>
      stand fun _ => .pure (.plain nofun nofun)

theorem event_filled (head : MemberHead) : Reads all i (fun _ m => m.Filled P) (Parser.event head) := by
  refine (expect (by decide)).after fun _ _ => (Even.type _).after fun _ _ =>
    (Even.namedType false _).after fun _ _ =>
    .check (by decide) fun _ _ => ?_
  extract_lets rest
  have hrest : ∀ j more, Reads all j (fun _ m => MemberDecl.Filled P m) (rest more) := fun _ _ =>
    stand fun _ => .pure (.plain nofun nofun)
  refine .ite (fun _ => skipGroup.after fun j _ => hrest j []) fun _ =>
    (Even.initializer? _).after fun _ _ => ?_
  exact (Even.many (Even.whenever_eat (by decide) (.plain rfl rfl) fun _ => Opens.ident.bind fun _ _ =>
    (Even.initializer? _).bind fun _ _ => .pure) _).after fun _ more => (expect (by decide)).after fun j _ =>
      hrest j more

section

variable (hproperty : ∀ i head type name,
  Reads all i (fun _ m => m.Filled P) (Parser.property head type name))
include hproperty

theorem memberNamed_filled (head : MemberHead) (type : TypeSyntax) :
    Reads all i (fun _ m => m.Filled P) (Parser.memberNamed head type) := by
  refine (Even.namedType true i).after fun _ name => .check (by decide) fun _ _ => .kindAhead 1 fun _ _ =>
    .ite (fun _ => otherMember_filled head) fun _ => .peek fun t _ => ?_
  split
  · exact method_filled head type name
  · exact hproperty _ head type name
  · exact hproperty _ head type name
  · exact field_filled head type name
  · exact field_filled head type name
  · exact field_filled head type name
  · exact failAt _

theorem memberAfter_filled (typeName : String) (head : MemberHead) :
    Reads all i (fun _ m => m.Filled P) (Parser.memberAfter typeName head) := by
  refine .get fun s _ => ?_
  split
  · exact event_filled head
  · exact otherMember_filled head
  · exact otherMember_filled head
  · exact otherMember_filled head
  · exact failAt _
  · exact failAt _
  · refine .ite (fun _ => otherMember_filled head) fun _ => (Even.type i).after fun _ type =>
      .peek fun t _ => ?_
    split
    · exact otherMember_filled head
    · exact otherMember_filled head
    · exact memberNamed_filled hproperty head type
    · exact failExpecting _

/-! ### Declarations -/

section

variable {typeDecl : MemberHead → Parser TypeDecl}
  (htypeDecl : ∀ head i, Reads all i (fun _ d => Types (TypeDecl.Filled P) (SyntaxNode.ofType d))
  (typeDecl head))
include htypeDecl

theorem member_filled (typeName : String) :
    Reads all i (fun _ m => m.Filled P) (Parser.member typeDecl typeName) :=
  (Even.memberHead i).after fun _ head => .get fun _ _ =>
    .ite (fun _ => (htypeDecl head _).map fun _ _ _ _ h => .ofType h) fun _ =>
      memberAfter_filled hproperty typeName head

theorem typeBody_filled (typeName : String) :
    Reads all i (fun _ members => ∀ m ∈ members, MemberDecl.Filled P m)
      (Parser.typeBody typeDecl typeName) := by
  refine (many (Q := fun _ _ (m?? : Option (Option MemberDecl)) => ∀ m? ∈ m??, ∀ m ∈ m?,
    MemberDecl.Filled P m) (fun n => ?_) i).bind fun _ members _ _ => .pure fun h m hm => ?_
  · refine .atEnd fun _ => .check (by decide) fun _ _ => .ite (fun _ => .pure nofun) fun _ => ?_
    refine .eat (by decide) (fun _ => .ite (fun _ => .pure ?_) (absurd rfl)) (.ite nofun fun _ => ?_)
    · rintro m? hm? m hm
      cases hm?
      cases hm
    · refine (recovering none ((member_filled hproperty htypeDecl typeName).map
        (R := fun _ m? => ∀ m ∈ m?, MemberDecl.Filled P m) fun _ m _ _ hm m' hm' => ?_)).map
          fun _ m? _ _ h m?' hm? => ?_
      · cases hm'
        exact hm
      · cases hm?
        exact h
  · obtain ⟨m?, hmem, rfl⟩ := List.mem_filterMap.1 hm
    obtain ⟨_, _, -, -, hsome⟩ := h.exists_of_mem hmem
    exact hsome _ rfl m rfl

theorem typeMembers_filled (kind : TypeKind) (typeName : String) :
    Reads all i (fun _ members => (∀ m ∈ members, MemberDecl.Filled P m) ∧ (kind = .enumKind → members = []))
      (Parser.typeMembers typeDecl kind typeName) := by
  refine .eat (by decide) (fun _ => .ite (fun _ => .pure ⟨nofun, fun _ => rfl⟩) (absurd rfl))
    (.ite nofun fun _ => ?_)
  refine (expect (by decide)).after fun _ _ => ?_
  extract_lets rest
  have hrest : ∀ j members, Reads all j (fun _ members' =>
      (∀ m ∈ members, MemberDecl.Filled P m) ∧ (kind = .enumKind → members = []) →
        (∀ m ∈ members', MemberDecl.Filled P m) ∧ (kind = .enumKind → members' = [])) (rest members) :=
        fun j members =>
    (closingBrace (i := j)).after fun _ _ => .eat (by decide) (fun _ => .pure id) (.pure id)
  refine .ite (fun _ => (skipUntil _).after fun j _ => ?_) fun hkind => ?_
  · exact (hrest j []).mono fun _ _ _ _ h => h ⟨nofun, fun _ => rfl⟩
  · exact (typeBody_filled hproperty htypeDecl typeName).bind fun j members _ _ =>
      (hrest j members).mono fun _ _ _ _ h hmembers => h ⟨hmembers, fun henum => absurd henum hkind⟩

theorem typeDeclOf_filled (head : MemberHead) :
    Reads all i (fun _ d => Types (TypeDecl.Filled P) (SyntaxNode.ofType d))
      (Parser.typeDeclOf typeDecl head) :=
  newDeclId.after fun _ _ => typeKind.after fun _ kind => ident.after fun _ name => (Even.typeParams _).after
    fun _ _ => (Even.skipBases _).after fun _ _ =>
      (typeMembers_filled hproperty htypeDecl kind name.name).bind
      fun _ _ _ _ => stand fun _ => .pure fun h => TypeDecl.filled_ofType h.1 h.2

end

theorem typeDecl_filled (head : MemberHead) :
    Reads all i (fun _ d => Types (TypeDecl.Filled P) (SyntaxNode.ofType d)) (Parser.typeDecl head) :=
  .fix (Q := fun _ _ _ d => Types (TypeDecl.Filled P) (SyntaxNode.ofType d))
    (fun _ hinner head _ => typeDeclOf_filled hproperty hinner head) head i

theorem namespaceType_filled : Reads all i
    (fun _ d? => Types (TypeDecl.Filled P) (SyntaxNode.ofNamespaceMembers (d?.toList.map .type)))
      Parser.namespaceType := by
  refine (Even.memberHead i).after fun _ head => .get fun _ _ => .ite (fun _ => ?_) fun _ =>
    .ite (fun _ => ?_) fun _ => failAt _
  · refine (typeDecl_filled hproperty head).map fun _ d _ _ h => ?_
    rw [Option.toList_some, List.map_singleton, SyntaxNode.ofNamespaceMembers]
    exact SyntaxNode.types_append.2 ⟨h, SyntaxNode.types_ofNamespaceMembers_nil⟩
  · exact (skipUntil _).after fun _ _ => (expect (by decide)).after fun _ _ =>
      .pure SyntaxNode.types_ofNamespaceMembers_nil

section

variable {space : Parser NamespaceDecl}
  (hspace : ∀ i, Reads all i (fun _ d => Types (TypeDecl.Filled P) (SyntaxNode.ofNamespace d)) space)
include hspace

theorem namespaceItem_filled :
    Reads all i (fun _ body => Types (TypeDecl.Filled P) (SyntaxNode.ofNamespaceMembers body.members))
      (Parser.namespaceItem space) := by
  refine .get fun _ _ => .ite (fun _ => ?_) fun _ => .ite (fun _ => ?_) fun _ => .ite (fun _ => ?_) fun _ =>
    .ite (fun _ => ?_) fun _ => ?_
  · exact (Even.usingDirective i).after fun _ _ => .pure SyntaxNode.types_ofNamespaceMembers_nil
  · exact (Even.attributeList i).after fun _ _ => .pure SyntaxNode.types_ofNamespaceMembers_nil
  · refine (hspace i).bind fun _ d _ _ => .pure fun h => ?_
    dsimp only
    rw [SyntaxNode.ofNamespaceMembers]
    exact SyntaxNode.types_append.2 ⟨h, SyntaxNode.types_ofNamespaceMembers_nil⟩
  · exact advance.after fun _ _ => throw
  · exact (namespaceType_filled hproperty).bind fun _ _ _ _ => .pure id

theorem namespaceBody_filled (braced : Bool) :
    Reads all i (fun _ body => Types (TypeDecl.Filled P) (SyntaxNode.ofNamespaceMembers body.members))
      (Parser.namespaceBody space braced) := by
  refine (many (Q := fun _ _ (body? : Option NamespaceBody) => ∀ body ∈ body?,
    Types (TypeDecl.Filled P) (SyntaxNode.ofNamespaceMembers body.members)) (fun n => ?_) i).bind
      fun _ parts _ _ => .pure fun h => ?_
  · refine .atEnd fun _ => .check (by decide) fun _ _ => .ite (fun _ => .pure nofun) fun _ => ?_
    refine (recovering .empty (namespaceItem_filled hproperty hspace)).map (g := some) (R := fun _ body? =>
      ∀ body ∈ body?, Types (TypeDecl.Filled P) (SyntaxNode.ofNamespaceMembers body.members))
        fun _ body _ _ h body' hbody => ?_
    cases hbody
    exact h
  · clear hspace
    have hparts : ∀ part ∈ parts, Types (TypeDecl.Filled P)
        (SyntaxNode.ofNamespaceMembers part.members) := by
      intro part hpart
      obtain ⟨_, _, -, -, hsome⟩ := h.exists_of_mem hpart
      exact hsome part rfl
    clear h
    induction parts with
    | nil => exact SyntaxNode.types_ofNamespaceMembers_nil
    | cons part rest ih =>
        exact SyntaxNode.types_ofNamespaceMembers_append (hparts part List.mem_cons_self)
          (ih fun other hother => hparts other (List.mem_cons_of_mem part hother))

theorem namespaceDeclOf_filled :
    Reads all i (fun _ d => Types (TypeDecl.Filled P) (SyntaxNode.ofNamespace d))
      (Parser.namespaceDeclOf space) := by
  refine (expect (by decide)).after fun _ _ => ident.after fun _ _ =>
    (Even.many (Even.whenever_eat (by decide) (.plain rfl rfl) fun _ => .ident) _).after fun _ _ => ?_
  refine .eat (by decide) (fun _ => ?_) ?_
  · extract_lets rest
    refine .ite (fun _ => ?_) (absurd rfl)
    exact (namespaceBody_filled hproperty hspace false).bind fun _ _ _ _ => stand fun _ => .pure
      fun h => SyntaxNode.types_ofNamespace h
  · extract_lets rest
    have hrest : ∀ j (body : NamespaceBody), Reads all j
        (fun _ d => Types (TypeDecl.Filled P) (SyntaxNode.ofNamespaceMembers body.members) →
          Types (TypeDecl.Filled P) (SyntaxNode.ofNamespace d)) (rest body) := fun _ _ =>
      stand fun _ => .pure fun h => SyntaxNode.types_ofNamespace h
    refine .ite nofun fun _ => (expect (by decide)).after fun _ _ =>
      (namespaceBody_filled hproperty hspace true).bind fun j body _ _ =>
        (closingBrace (i := j)).after fun k _ => ?_
    exact .eat (by decide) (fun _ => hrest _ body) (hrest k body)

end

theorem sourceFile_filled :
    Reads all i (fun _ file => Types (TypeDecl.Filled P) file.nodes) Parser.sourceFile := by
  have hspace : ∀ i, Reads all i (fun _ d => Types (TypeDecl.Filled P) (SyntaxNode.ofNamespace d))
      Parser.namespaceDecl :=
    .fix (Q := fun _ _ _ d => Types (TypeDecl.Filled P) (SyntaxNode.ofNamespace d))
      (fun _ hinner _ _ => namespaceDeclOf_filled hproperty (hinner ())) ()
  exact .get fun _ _ => (namespaceBody_filled hproperty hspace false).bind fun _ _ _ _ => .pure
    fun h => SyntaxNode.types_directives.2 h

end

end Parser.Reads

end Graft
