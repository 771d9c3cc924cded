/-
Module: Graft.Proofs.Syntax.Traversal
Purpose: The two ways through a source visit the same nodes in the same order.
Main exports: Visitor.act, Visitor.replay, Visitor.recording, SourceFile.visits, SyntaxNode.once,
  SourceFile.visits_eq_nodes

A visitor that writes down each call gives the calls that every visitor gets, since the way through a source
does not depend on the state.  A nested type is visited twice, as a member and as a type; with the former
calls left out, the rest are the nodes of the source in the order of its text.
-/
import Graft.Syntax.Node

namespace Graft

namespace SyntaxNode

/-- A nested type as a member of the type around it. -/
def isNestedType : SyntaxNode → Bool
  | member (.type _) => true
  | _ => false

/-- The nodes without nested types as members, so that each type occurs as a type only. -/
def once (nodes : List SyntaxNode) : List SyntaxNode := nodes.filter (!·.isNestedType)

theorem once_append (a b : List SyntaxNode) : once (a ++ b) = once a ++ once b := List.filter_append a b

theorem once_directives (usings : List UsingDirective) :
    once (usings.map directive) = usings.map directive :=
  List.filter_eq_self.2 <| List.forall_mem_map.2 fun _ _ => rfl

end SyntaxNode

namespace Visitor

variable {σ : Type}

/-! ### Calls -/

/-- What a visitor does at a node; a source as a whole is not visited. -/
def act (v : Visitor σ) : SyntaxNode → σ → σ
  | .file _ => id
  | .directive decl => v.onUsing decl
  | .space decl => v.onNamespace decl
  | .type decl => v.onType decl
  | .member decl => v.onMember decl

/-- What a visitor makes of a state at some nodes, one after another. -/
def replay (v : Visitor σ) (calls : List SyntaxNode) (s : σ) :
    σ := calls.foldl (fun s node => v.act node s) s

theorem replay_concat (v : Visitor σ) (calls : List SyntaxNode) (node : SyntaxNode) (s : σ) :
    v.replay (calls ++ [node]) s = v.act node (v.replay calls s) := by
  rw [replay, List.foldl_append]
  rfl

/-- The visitor that writes down each call behind those before. -/
def recording : Visitor (List SyntaxNode) where
  onUsing decl calls := calls ++ [.directive decl]
  onNamespace decl calls := calls ++ [.space decl]
  onType decl calls := calls ++ [.type decl]
  onMember decl calls := calls ++ [.member decl]

/-! ### Every visitor gets the calls that are written down -/

section Replay

variable (v : Visitor σ) (s : σ)

theorem usings_replay (list : List UsingDirective) (calls : List SyntaxNode) :
    v.usings list (v.replay calls s) = v.replay (recording.usings list calls) s := by
  induction list generalizing calls with
  | nil => rfl
  | cons decl rest ih =>
      have hstep : v.onUsing decl (v.replay calls s) = v.replay (recording.onUsing decl calls) s :=
        (v.replay_concat calls (.directive decl) s).symm
      rw [usings, List.foldl_cons, hstep]
      exact ih _

mutual

theorem type_replay : ∀ (decl : TypeDeclOf MemberDecl) (calls : List SyntaxNode),
    v.type decl (v.replay calls s) = v.replay (recording.type decl calls) s
  | ⟨id, attributes, modifiers, kind, name, typeParams, list, span⟩, calls => by
      rw [type, type, ← members_replay list]
      exact congrArg (v.members list) (v.replay_concat calls (.type _) s).symm

theorem members_replay : ∀ (list : List MemberDecl) (calls : List SyntaxNode),
    v.members list (v.replay calls s) = v.replay (recording.members list calls) s
  | [], calls => by rw [members, members]
  | decl :: rest, calls => by rw [members, members, member_replay decl, members_replay rest]

theorem member_replay : ∀ (decl : MemberDecl) (calls : List SyntaxNode),
    v.member decl (v.replay calls s) = v.replay (recording.member decl calls) s
  | .type nested, calls => by
      rw [member, member, ← type_replay nested]
      exact congrArg (v.type nested) (v.replay_concat calls (.member _) s).symm
  | .field decl, calls | .property decl, calls | .method decl, calls | .event decl, calls | .other span,
      calls => by
      rw [member, member]
      exact (v.replay_concat calls (.member _) s).symm

end

mutual

theorem space_replay : ∀ (decl : NamespaceDeclOf NamespaceMember) (calls : List SyntaxNode),
    v.space decl (v.replay calls s) = v.replay (recording.space decl calls) s
  | ⟨name, fileScoped, list, inner, span⟩, calls => by
      rw [space, space, ← spaceMembers_replay inner, ← usings_replay]
      exact congrArg (fun t => v.spaceMembers inner (v.usings list t))
        (v.replay_concat calls (.space _) s).symm

theorem spaceMembers_replay : ∀ (list : List NamespaceMember) (calls : List SyntaxNode),
    v.spaceMembers list (v.replay calls s) = v.replay (recording.spaceMembers list calls) s
  | [], calls => by rw [spaceMembers, spaceMembers]
  | .space decl :: rest, calls =>
      by rw [spaceMembers, spaceMembers, space_replay decl, spaceMembers_replay rest]
  | .type decl :: rest, calls => by rw [spaceMembers, spaceMembers, type_replay, spaceMembers_replay rest]

end

end Replay

/-! ### The calls are the nodes -/

section Nodes

open SyntaxNode

theorem recording_usings (list : List UsingDirective) (calls : List SyntaxNode) :
    recording.usings list calls = calls ++ list.map directive := by
  induction list generalizing calls with
  | nil => exact (List.append_nil calls).symm
  | cons decl rest ih =>
      rw [usings, List.foldl_cons, List.map_cons, List.append_cons]
      exact ih _

mutual

theorem once_recording_type : ∀ (decl : TypeDeclOf MemberDecl) (calls : List SyntaxNode),
    once (recording.type decl calls) = once calls ++ ofType decl
  | ⟨id, attributes, modifiers, kind, name, typeParams, list, span⟩, calls => by
      rw [type, once_recording_members list, ofType, List.append_cons]
      exact congrArg (· ++ ofMembers list) (once_append calls [.type _])

theorem once_recording_members : ∀ (list : List MemberDecl) (calls : List SyntaxNode),
    once (recording.members list calls) = once calls ++ ofMembers list
  | [], calls => by rw [members, ofMembers, List.append_nil]
  | decl :: rest, calls => by
      rw [members, once_recording_members rest, once_recording_member decl, ofMembers, List.append_assoc]

theorem once_recording_member : ∀ (decl : MemberDecl) (calls : List SyntaxNode),
    once (recording.member decl calls) = once calls ++ ofMember decl
  | .type nested, calls => by
      -- the call for the member is the one that is left out
      have hleft : once (recording.onMember (.type nested) calls) = once calls :=
        (once_append calls [.member (.type nested)]).trans (List.append_nil _)
      rw [member, once_recording_type nested, hleft, ofMember]
  | .field decl, calls | .property decl, calls | .method decl, calls | .event decl, calls | .other span,
      calls => by
      rw [member, ofMember]
      exact once_append calls [.member _]

end

mutual

theorem once_recording_space : ∀ (decl : NamespaceDeclOf NamespaceMember) (calls : List SyntaxNode),
    once (recording.space decl calls) = once calls ++ ofNamespace decl
  | ⟨name, fileScoped, list, inner, span⟩, calls => by
      rw [space, once_recording_spaceMembers inner, recording_usings, once_append, once_directives,
        ofNamespace, List.append_assoc, List.append_cons]
      exact congrArg (· ++ (list.map directive ++ ofNamespaceMembers inner)) (once_append calls [.space _])

theorem once_recording_spaceMembers : ∀ (list : List NamespaceMember) (calls : List SyntaxNode),
    once (recording.spaceMembers list calls) = once calls ++ ofNamespaceMembers list
  | [], calls => by rw [spaceMembers, ofNamespaceMembers, List.append_nil]
  | .space decl :: rest, calls => by
      rw [spaceMembers, once_recording_spaceMembers rest, once_recording_space decl, ofNamespaceMembers,
        List.append_assoc]
  | .type decl :: rest, calls => by
      rw [spaceMembers, once_recording_spaceMembers rest, once_recording_type decl, ofNamespaceMembers,
        List.append_assoc]

end

end Nodes

end Visitor

namespace SourceFile

/-- The calls that a visitor gets on its way through a source, in order. -/
def visits (f : SourceFile) : List SyntaxNode := Visitor.recording.file f []

/-- Every visitor acts on the same nodes in the same order, whatever it does there.  Without the nested types
as members they are the nodes of the source behind the source itself. -/
theorem visits_eq_nodes (f : SourceFile) :
    (∀ (σ : Type) (v : Visitor σ) (s : σ), v.file f s = f.visits.foldl (fun s node => v.act node s) s) ∧
      f.nodes = .file f :: f.visits.filter fun node => !node.isNestedType := by
  constructor
  · intro σ v s
    change v.spaceMembers f.members (v.usings f.usings (v.replay [] s)) = v.replay f.visits s
    rw [v.usings_replay s, v.spaceMembers_replay s]
    rfl
  · have honce : SyntaxNode.once f.visits =
        f.usings.map .directive ++ SyntaxNode.ofNamespaceMembers f.members := by
      rw [visits, Visitor.file, Visitor.once_recording_spaceMembers, Visitor.recording_usings,
        List.nil_append, SyntaxNode.once_directives]
    exact congrArg (.file f :: ·) honce.symm

end SourceFile

end Graft
