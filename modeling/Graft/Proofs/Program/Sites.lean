/-
Module: Graft.Proofs.Program.Sites
Purpose: The names at the places where types are declared, and the identities they give.
Main exports: DeclSite.Named, SourceTree.named_of_mem_sites, SourceTree.mem_sites_parent,
  SourceTree.ids_sites, DeclSite.SameType, DeclSite.identityIn_eq_intercalate
-/
import Mathlib.Data.List.Induction
import Graft.Program.Site
import Graft.Proofs.Parser.Numbers

namespace Graft

namespace DeclSite

/-! ### Names -/

/-- The names of the namespaces and types around a declaration, and its own, satisfy `P`. -/
structure Named (P : Ident → Prop) (s : DeclSite) : Prop where
  spaces : ∀ space ∈ s.spaces, ∀ i ∈ space.name, P i
  containers : ∀ d ∈ s.containers, P d.name
  decl : P s.decl.name

section

variable {P : Ident → Prop} {spaces : List NamespaceDecl}

mutual

theorem named_ofType (hspaces : ∀ space ∈ spaces, ∀ i ∈ space.name, P i)
    (containers : List TypeDecl) (hcontainers : ∀ d ∈ containers, P d.name) :
    ∀ decl : TypeDeclOf MemberDecl, TypeDeclOf.Named P decl →
      ∀ s ∈ ofType spaces containers decl, s.Named P
  | ⟨id, attributes, modifiers, kind, name, typeParams, members, span⟩, named => by
      intro s hs
      simp only [TypeDeclOf.Named] at named
      rw [ofType] at hs
      rcases List.mem_cons.1 hs with rfl | hs
      · exact ⟨hspaces, hcontainers, named.1⟩
      · refine named_ofMembers hspaces _ (fun d hd => ?_) members named.2.2 s hs
        rcases List.mem_append.1 hd with hd | hd
        · exact hcontainers d hd
        · rw [List.mem_singleton.1 hd]
          exact named.1

theorem named_ofMembers (hspaces : ∀ space ∈ spaces, ∀ i ∈ space.name, P i)
    (containers : List TypeDecl) (hcontainers : ∀ d ∈ containers, P d.name) :
    ∀ members : List MemberDecl, MemberDecl.AllNamed P members →
      ∀ s ∈ ofMembers spaces containers members, s.Named P
  | [], _ => by simp [ofMembers]
  | decl :: rest, named => by
      intro s hs
      simp only [MemberDecl.AllNamed] at named
      rw [ofMembers] at hs
      rcases List.mem_append.1 hs with hs | hs
      · exact named_ofMember hspaces containers hcontainers decl named.1 s hs
      · exact named_ofMembers hspaces containers hcontainers rest named.2 s hs

theorem named_ofMember (hspaces : ∀ space ∈ spaces, ∀ i ∈ space.name, P i)
    (containers : List TypeDecl) (hcontainers : ∀ d ∈ containers, P d.name) :
    ∀ decl : MemberDecl, MemberDecl.Named P decl →
      ∀ s ∈ ofMember spaces containers decl, s.Named P
  | .type decl, named => by
      simp only [MemberDecl.Named] at named
      rw [ofMember]
      exact named_ofType hspaces containers hcontainers decl named
  | .field _, _ | .property _, _ | .method _, _ | .event _, _ | .other _, _ => by simp [ofMember]

end

end

mutual

theorem named_ofSpace {P : Ident → Prop} (outer : List NamespaceDecl)
    (houter : ∀ space ∈ outer, ∀ i ∈ space.name, P i) :
    ∀ decl : NamespaceDeclOf NamespaceMember, NamespaceDeclOf.Named P decl →
      ∀ s ∈ ofSpace outer decl, s.Named P
  | ⟨name, fileScoped, usings, members, span⟩, named => by
      simp only [NamespaceDeclOf.Named] at named
      rw [ofSpace]
      refine named_ofSpaceMembers _ (fun space hspace => ?_) members named.2
      rcases List.mem_append.1 hspace with hspace | hspace
      · exact houter space hspace
      · rw [List.mem_singleton.1 hspace]
        exact named.1

theorem named_ofSpaceMembers {P : Ident → Prop} (outer : List NamespaceDecl)
    (houter : ∀ space ∈ outer, ∀ i ∈ space.name, P i) :
    ∀ members : List NamespaceMember, NamespaceMember.AllNamed P members →
      ∀ s ∈ ofSpaceMembers outer members, s.Named P
  | [], _ => by simp [ofSpaceMembers]
  | .space decl :: rest, named => by
      intro s hs
      simp only [NamespaceMember.AllNamed] at named
      rw [ofSpaceMembers] at hs
      rcases List.mem_append.1 hs with hs | hs
      · exact named_ofSpace outer houter decl named.1 s hs
      · exact named_ofSpaceMembers outer houter rest named.2 s hs
  | .type decl :: rest, named => by
      intro s hs
      simp only [NamespaceMember.AllNamed] at named
      rw [ofSpaceMembers] at hs
      rcases List.mem_append.1 hs with hs | hs
      · exact named_ofType houter [] (by simp) decl named.1 s hs
      · exact named_ofSpaceMembers outer houter rest named.2 s hs

end

/-! ### Parents -/

/-- The declaration directly around `s` is one of `sites` and holds it, unless `s` stands in
`containers` itself and is `here`. -/
def HeldIn (sites : List DeclSite) (containers : List TypeDecl) (here : Prop) (s : DeclSite) : Prop :=
  (s.containers = containers ∧ here) ∨
    ∃ outer d, s.containers = outer ++ [d] ∧ ⟨s.spaces, outer, d⟩ ∈ sites ∧ .type s.decl ∈ d.members

theorem HeldIn.mono {sites more : List DeclSite} {containers : List TypeDecl} {here near : Prop}
    {s : DeclSite} (held : s.HeldIn sites containers here) (h : ∀ t ∈ sites, t ∈ more)
    (hhere : here → near) : s.HeldIn more containers near := by
  rcases held with ⟨heq, held⟩ | ⟨outer, d, heq, hmem, hdecl⟩
  · exact .inl ⟨heq, hhere held⟩
  · exact .inr ⟨outer, d, heq, h _ hmem, hdecl⟩

section

variable {spaces : List NamespaceDecl}

mutual

theorem heldIn_ofType (containers : List TypeDecl) :
    ∀ decl : TypeDeclOf MemberDecl, ∀ s ∈ ofType spaces containers decl,
      s.spaces = spaces ∧ s.HeldIn (ofType spaces containers decl) containers (s.decl = decl)
  | ⟨id, attributes, modifiers, kind, name, typeParams, members, span⟩ => by
      intro s hs
      rw [ofType] at hs ⊢
      rcases List.mem_cons.1 hs with rfl | hs
      · exact ⟨rfl, .inl ⟨rfl, rfl⟩⟩
      · obtain ⟨hspaces, held⟩ := heldIn_ofMembers _ members s hs
        refine ⟨hspaces, .inr ?_⟩
        rcases held with ⟨heq, held⟩ | ⟨outer, d, heq, hmem, hdecl⟩
        · exact ⟨containers, _, heq, by rw [hspaces]; exact List.mem_cons_self, held⟩
        · exact ⟨outer, d, heq, List.mem_cons_of_mem _ hmem, hdecl⟩

theorem heldIn_ofMembers (containers : List TypeDecl) :
    ∀ members : List MemberDecl, ∀ s ∈ ofMembers spaces containers members,
      s.spaces = spaces ∧
        s.HeldIn (ofMembers spaces containers members) containers (.type s.decl ∈ members)
  | [] => by simp [ofMembers]
  | decl :: rest => by
      intro s hs
      rw [ofMembers] at hs ⊢
      rcases List.mem_append.1 hs with hs | hs
      · obtain ⟨hspaces, held⟩ := heldIn_ofMember containers decl s hs
        exact ⟨hspaces, held.mono (fun t ht => List.mem_append_left _ ht)
          fun h => h ▸ List.mem_cons_self⟩
      · obtain ⟨hspaces, held⟩ := heldIn_ofMembers containers rest s hs
        exact ⟨hspaces, held.mono (fun t ht => List.mem_append_right _ ht)
          fun h => List.mem_cons_of_mem _ h⟩

theorem heldIn_ofMember (containers : List TypeDecl) :
    ∀ decl : MemberDecl, ∀ s ∈ ofMember spaces containers decl,
      s.spaces = spaces ∧ s.HeldIn (ofMember spaces containers decl) containers (.type s.decl = decl)
  | .type decl => by
      intro s hs
      rw [ofMember] at hs ⊢
      obtain ⟨hspaces, held⟩ := heldIn_ofType containers decl s hs
      exact ⟨hspaces, held.mono (fun _ ht => ht) fun h => congrArg MemberDecl.type h⟩
  | .field _ | .property _ | .method _ | .event _ | .other _ => by simp [ofMember]

end

end

mutual

theorem heldIn_ofSpace (outer : List NamespaceDecl) :
    ∀ decl : NamespaceDeclOf NamespaceMember, ∀ s ∈ ofSpace outer decl,
      s.HeldIn (ofSpace outer decl) [] True
  | ⟨name, fileScoped, usings, members, span⟩ => by
      rw [ofSpace]
      exact heldIn_ofSpaceMembers _ members

theorem heldIn_ofSpaceMembers (outer : List NamespaceDecl) :
    ∀ members : List NamespaceMember, ∀ s ∈ ofSpaceMembers outer members,
      s.HeldIn (ofSpaceMembers outer members) [] True
  | [] => by simp [ofSpaceMembers]
  | .space decl :: rest => by
      intro s hs
      rw [ofSpaceMembers] at hs ⊢
      rcases List.mem_append.1 hs with hs | hs
      · exact (heldIn_ofSpace outer decl s hs).mono (fun t ht => List.mem_append_left _ ht) id
      · exact (heldIn_ofSpaceMembers outer rest s hs).mono (fun t ht => List.mem_append_right _ ht) id
  | .type decl :: rest => by
      intro s hs
      rw [ofSpaceMembers] at hs ⊢
      rcases List.mem_append.1 hs with hs | hs
      · exact (heldIn_ofType [] decl s hs).2.mono (fun t ht => List.mem_append_left _ ht)
          fun _ => trivial
      · exact (heldIn_ofSpaceMembers outer rest s hs).mono (fun t ht => List.mem_append_right _ ht) id

end

/-! ### Children -/

theorem mem_ofType_self (spaces : List NamespaceDecl) (containers : List TypeDecl) (d : TypeDecl) :
    ⟨spaces, containers, d⟩ ∈ ofType spaces containers d := by
  obtain ⟨id, attributes, modifiers, kind, name, typeParams, members, span⟩ := d
  rw [ofType]
  exact List.mem_cons_self

theorem mem_ofMembers_of_mem (spaces : List NamespaceDecl) (containers : List TypeDecl)
    {d : TypeDecl} {members : List MemberDecl} (h : .type d ∈ members) :
    ⟨spaces, containers, d⟩ ∈ ofMembers spaces containers members := by
  induction members with
  | nil => cases h
  | cons m rest ih =>
      rw [ofMembers]
      rcases List.mem_cons.1 h with rfl | h
      · rw [ofMember]
        exact List.mem_append_left _ (mem_ofType_self spaces containers d)
      · exact List.mem_append_right _ (ih h)

/-- The types directly in the declarations among `sites` are among them. -/
def HoldsChildren (sites : List DeclSite) : Prop :=
  ∀ s ∈ sites, ∀ d, .type d ∈ s.decl.members → ⟨s.spaces, s.containers ++ [s.decl], d⟩ ∈ sites

theorem HoldsChildren.append {a b : List DeclSite} (ha : HoldsChildren a) (hb : HoldsChildren b) :
    HoldsChildren (a ++ b) := by
  intro s hs d hd
  rcases List.mem_append.1 hs with hs | hs
  · exact List.mem_append_left _ (ha s hs d hd)
  · exact List.mem_append_right _ (hb s hs d hd)

theorem holdsChildren_nil : HoldsChildren [] := fun _ hs => by cases hs

section

variable {spaces : List NamespaceDecl}

mutual

theorem holdsChildren_ofType (containers : List TypeDecl) :
    ∀ decl : TypeDeclOf MemberDecl, HoldsChildren (ofType spaces containers decl)
  | ⟨id, attributes, modifiers, kind, name, typeParams, members, span⟩ => by
      intro s hs d hd
      rw [ofType] at hs ⊢
      rcases List.mem_cons.1 hs with rfl | hs
      · exact List.mem_cons_of_mem _ (mem_ofMembers_of_mem _ _ hd)
      · exact List.mem_cons_of_mem _ (holdsChildren_ofMembers _ members s hs d hd)

theorem holdsChildren_ofMembers (containers : List TypeDecl) :
    ∀ members : List MemberDecl, HoldsChildren (ofMembers spaces containers members)
  | [] => by
      rw [ofMembers]
      exact holdsChildren_nil
  | decl :: rest => by
      rw [ofMembers]
      exact (holdsChildren_ofMember containers decl).append (holdsChildren_ofMembers containers rest)

theorem holdsChildren_ofMember (containers : List TypeDecl) :
    ∀ decl : MemberDecl, HoldsChildren (ofMember spaces containers decl)
  | .type decl => by
      rw [ofMember]
      exact holdsChildren_ofType containers decl
  | .field _ | .property _ | .method _ | .event _ | .other _ => by
      rw [ofMember]
      exact holdsChildren_nil

end

end

mutual

theorem holdsChildren_ofSpace (outer : List NamespaceDecl) :
    ∀ decl : NamespaceDeclOf NamespaceMember, HoldsChildren (ofSpace outer decl)
  | ⟨name, fileScoped, usings, members, span⟩ => by
      rw [ofSpace]
      exact holdsChildren_ofSpaceMembers _ members

theorem holdsChildren_ofSpaceMembers (outer : List NamespaceDecl) :
    ∀ members : List NamespaceMember, HoldsChildren (ofSpaceMembers outer members)
  | [] => by
      rw [ofSpaceMembers]
      exact holdsChildren_nil
  | .space decl :: rest => by
      rw [ofSpaceMembers]
      exact (holdsChildren_ofSpace outer decl).append (holdsChildren_ofSpaceMembers outer rest)
  | .type decl :: rest => by
      rw [ofSpaceMembers]
      exact (holdsChildren_ofType [] decl).append (holdsChildren_ofSpaceMembers outer rest)

end

/-! ### Declarations -/

mutual

theorem map_decl_ofType (spaces : List NamespaceDecl) (containers : List TypeDecl) :
    ∀ decl : TypeDeclOf MemberDecl, (ofType spaces containers decl).map (·.decl) =
      (SyntaxNode.ofType decl).filterMap SyntaxNode.type?
  | ⟨id, attributes, modifiers, kind, name, typeParams, members, span⟩ => by
      rw [ofType, SyntaxNode.ofType, List.map_cons, map_decl_ofMembers]
      rfl

theorem map_decl_ofMembers (spaces : List NamespaceDecl) (containers : List TypeDecl) :
    ∀ members : List MemberDecl, (ofMembers spaces containers members).map (·.decl) =
      (SyntaxNode.ofMembers members).filterMap SyntaxNode.type?
  | [] => by
      rw [ofMembers, SyntaxNode.ofMembers]
      rfl
  | decl :: rest => by
      rw [ofMembers, SyntaxNode.ofMembers, List.map_append, List.filterMap_append,
        map_decl_ofMember, map_decl_ofMembers]

theorem map_decl_ofMember (spaces : List NamespaceDecl) (containers : List TypeDecl) :
    ∀ decl : MemberDecl, (ofMember spaces containers decl).map (·.decl) =
      (SyntaxNode.ofMember decl).filterMap SyntaxNode.type?
  | .type decl => by rw [ofMember, SyntaxNode.ofMember, map_decl_ofType]
  | .field _ | .property _ | .method _ | .event _ | .other _ => by
      rw [ofMember, SyntaxNode.ofMember]
      rfl

end

mutual

theorem map_decl_ofSpace (outer : List NamespaceDecl) :
    ∀ decl : NamespaceDeclOf NamespaceMember, (ofSpace outer decl).map (·.decl) =
      (SyntaxNode.ofNamespace decl).filterMap SyntaxNode.type?
  | ⟨name, fileScoped, usings, members, span⟩ => by
      rw [ofSpace, SyntaxNode.ofNamespace, map_decl_ofSpaceMembers]
      exact (SyntaxNode.filterMap_directives usings _).symm

theorem map_decl_ofSpaceMembers (outer : List NamespaceDecl) :
    ∀ members : List NamespaceMember, (ofSpaceMembers outer members).map (·.decl) =
      (SyntaxNode.ofNamespaceMembers members).filterMap SyntaxNode.type?
  | [] => by
      rw [ofSpaceMembers, SyntaxNode.ofNamespaceMembers]
      rfl
  | .space decl :: rest => by
      rw [ofSpaceMembers, SyntaxNode.ofNamespaceMembers, List.map_append, List.filterMap_append,
        map_decl_ofSpace, map_decl_ofSpaceMembers]
  | .type decl :: rest => by
      rw [ofSpaceMembers, SyntaxNode.ofNamespaceMembers, List.map_append, List.filterMap_append,
        map_decl_ofType, map_decl_ofSpaceMembers]

end

end DeclSite

namespace SourceTree

/-- The names at the declarations of a tree that was read without errors are words. -/
theorem named_of_mem_sites {id : SourceId} {d : Document} {t : SourceTree}
    (h : parse id d = .ok t) : ∀ s ∈ t.sites, s.Named fun i => Text.IsWord i.name := by
  unfold parse at h
  cases hfile : SourceFile.parse id d.text with
  | error e =>
      rw [hfile] at h
      cases h
  | ok file =>
      rw [hfile] at h
      cases h
      exact DeclSite.named_ofSpaceMembers [] (by simp) _ (SourceFile.allNamed_of_parse hfile)

/-- The names at the declarations in trees that were read without errors are words. -/
theorem named_of_mem_flatMap_sites {trees : List SourceTree}
    (hread : ∀ t ∈ trees, ∃ id d, parse id d = .ok t) :
    ∀ s ∈ trees.flatMap (·.sites), s.Named fun i => Text.IsWord i.name := by
  intro s hs
  obtain ⟨t, ht, hs⟩ := List.mem_flatMap.1 hs
  obtain ⟨id, d, hparse⟩ := hread t ht
  exact named_of_mem_sites hparse s hs

/-- The declaration directly around a nested one is in the same tree and holds it. -/
theorem mem_sites_parent {t : SourceTree} {s : DeclSite} (hs : s ∈ t.sites)
    {outer : List TypeDecl} {d : TypeDecl} (h : s.containers = outer ++ [d]) :
    ⟨s.spaces, outer, d⟩ ∈ t.sites ∧ .type s.decl ∈ d.members := by
  rcases DeclSite.heldIn_ofSpaceMembers [] t.file.members s hs with
    ⟨hnil, -⟩ | ⟨outer', d', heq, hmem, hdecl⟩
  · rw [h] at hnil
    simp at hnil
  · rw [h] at heq
    obtain ⟨rfl, hd⟩ := List.append_inj' heq rfl
    obtain rfl : d = d' := List.singleton_inj.1 hd
    exact ⟨hmem, hdecl⟩

/-- The declaration of a type directly in a declared one is in the same tree. -/
theorem mem_sites_child {t : SourceTree} {s : DeclSite} (hs : s ∈ t.sites) {d : TypeDecl}
    (h : .type d ∈ s.decl.members) : ⟨s.spaces, s.containers ++ [s.decl], d⟩ ∈ t.sites :=
  DeclSite.holdsChildren_ofSpaceMembers [] t.file.members s hs d h

/-- The declarations of a tree are those of its nodes. -/
theorem map_decl_sites (t : SourceTree) : t.sites.map (·.decl) = t.file.typeDecls := by
  rw [sites, DeclSite.map_decl_ofSpaceMembers]
  exact (SyntaxNode.filterMap_directives t.file.usings _).symm

/-- The declarations of a tree have different numbers, which are of the tree. -/
theorem ids_sites {id : SourceId} {d : Document} {t : SourceTree} (h : parse id d = .ok t) :
    t.id = id ∧ (t.sites.map (·.decl.id)).Nodup ∧ ∀ s ∈ t.sites, s.decl.id.source = id := by
  unfold parse at h
  cases hfile : SourceFile.parse id d.text with
  | error e =>
      rw [hfile] at h
      cases h
  | ok file =>
      rw [hfile] at h
      cases h
      obtain ⟨high, hascend⟩ := SourceFile.ids_of_parse hfile
      have hids : (SourceTree.sites ⟨id, d.name, d.text, file, d.origin⟩).map (·.decl.id) =
          file.typeDecls.map (·.id) := by
        rw [← map_decl_sites ⟨id, d.name, d.text, file, d.origin⟩, List.map_map]
        rfl
      refine ⟨rfl, hids ▸ hascend.nodup, fun s hs => ?_⟩
      have hmem : s.decl.id ∈ file.typeDecls.map (·.id) := hids ▸ List.mem_map_of_mem hs
      exact (hascend.bounds _ hmem).1

end SourceTree

/-! ### Identities -/

namespace DeclSite

/-- The names of the types around a declaration and its own, each with its number of type
parameters. -/
def chain (s : DeclSite) : List (String × Nat) :=
  (s.containers ++ [s.decl]).map fun d => (d.name.name, d.arity)

/-- Two declarations stand in one namespace and in types of the same names and arities, and have one
name and arity themselves. -/
structure SameType (s t : DeclSite) : Prop where
  path : s.path = t.path
  chain : s.chain = t.chain

theorem chain_eq (s : DeclSite) :
    s.chain = s.containers.map (fun d => (d.name.name, d.arity)) ++
      [(s.decl.name.name, s.decl.arity)] := by
  simp [chain]

theorem identityIn_eq_foldl (path : List String) (types : List TypeDecl) :
    identityIn path types = (types.map fun d => (d.name.name, d.arity)).foldl
      (fun parent d => typeIdentity parent d.1 d.2) (".".intercalate path) := by
  rw [List.foldl_map]
  rfl

/-- The key of the type that holds a declaration is that of the declaration around it. -/
theorem container?_eq (s : DeclSite) :
    s.container? =
      if s.containers = [] then none else some (.ofName (identityIn s.path s.containers)) := by
  unfold container? containerKeys
  by_cases h : s.containers = []
  · simp [h]
  · rw [if_neg h, List.getLast?_map, List.getLast?_range]
    have hlength : s.containers.length ≠ 0 := by simpa using h
    simp [hlength, Nat.sub_add_cancel (Nat.pos_of_ne_zero hlength)]

namespace SameType

variable {s t : DeclSite} (same : s.SameType t)
include same

theorem containers : s.containers.map (fun d => (d.name.name, d.arity)) =
    t.containers.map fun d => (d.name.name, d.arity) := by
  have h := same.chain
  rw [chain_eq, chain_eq] at h
  exact (List.append_inj' h rfl).1

theorem name : s.decl.name.name = t.decl.name.name := by
  have h := same.chain
  rw [chain_eq, chain_eq] at h
  exact congrArg Prod.fst (List.singleton_inj.1 (List.append_inj' h rfl).2)

theorem arity : s.decl.arity = t.decl.arity := by
  have h := same.chain
  rw [chain_eq, chain_eq] at h
  exact congrArg Prod.snd (List.singleton_inj.1 (List.append_inj' h rfl).2)

theorem container? : s.container? = t.container? := by
  have hnil : s.containers = [] ↔ t.containers = [] := by
    have h := congrArg List.length same.containers
    simp only [List.length_map] at h
    rw [← List.length_eq_zero_iff, ← List.length_eq_zero_iff, h]
  rw [container?_eq, container?_eq, identityIn_eq_foldl, identityIn_eq_foldl, same.path,
    same.containers]
  simp only [hnil]

end SameType

/-- The type that holds a declaration is the one around it. -/
theorem container?_child (s : DeclSite) (d : TypeDecl) :
    (⟨s.spaces, s.containers ++ [s.decl], d⟩ : DeclSite).container? = some s.key := by
  rw [container?_eq, if_neg (by simp)]
  rfl

/-- The segment of a type in metadata names. -/
def segmentOf (d : TypeDecl) : String := MetadataName.segment d.name.name d.arity

private theorem segment_ne_empty {name : String} (h : name ≠ "") (arity : Nat) :
    MetadataName.segment name arity ≠ "" := by
  unfold MetadataName.segment
  split
  · exact h
  · intro hempty
    have := congrArg String.toList hempty
    simp at this

private theorem intercalate_ne_empty {segments : List String} (hne : segments ≠ [])
    (h : ∀ segment ∈ segments, segment ≠ "") : ".".intercalate segments ≠ "" := by
  cases segments with
  | nil => exact absurd rfl hne
  | cons segment rest =>
      cases rest with
      | nil => simpa using h
      | cons next rest =>
          rw [String.intercalate_cons_cons]
          intro hempty
          have := congrArg String.toList hempty
          simp at this

/-- With no empty names, the identity of a type is its metadata name. -/
theorem identityIn_eq_intercalate {path : List String} {types : List TypeDecl}
    (hpath : ∀ name ∈ path, name ≠ "") (htypes : ∀ d ∈ types, d.name.name ≠ "") :
    identityIn path types = ".".intercalate (path ++ types.map segmentOf) := by
  induction types using List.reverseRecOn with
  | nil => simp [identityIn]
  | append_singleton types d ih =>
      have hparent := ih fun e he => htypes e (List.mem_append_left _ he)
      rw [identityIn] at hparent
      rw [identityIn, List.foldl_append, List.foldl_cons, List.foldl_nil, hparent, List.map_append,
        ← List.append_assoc, typeIdentity]
      by_cases hnil : path ++ types.map segmentOf = []
      · rw [hnil]
        simp [segmentOf]
      · have hsegments : ∀ segment ∈ path ++ types.map segmentOf, segment ≠ "" := by
          intro segment hsegment
          rcases List.mem_append.1 hsegment with hsegment | hsegment
          · exact hpath segment hsegment
          · obtain ⟨e, he, rfl⟩ := List.mem_map.1 hsegment
            exact segment_ne_empty (htypes e (List.mem_append_left _ he)) _
        rw [if_neg (intercalate_ne_empty hnil hsegments),
          String.intercalate_append_of_ne_nil hnil (by simp)]
        simp [segmentOf]

end DeclSite

end Graft
