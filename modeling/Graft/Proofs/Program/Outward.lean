/-
Module: Graft.Proofs.Program.Outward
Purpose: Declarations that are nested in one another.
Main exports: DeclSite.along, DeclSite.outward, SourceTree.mem_sites_of_mem_outward, DeclSite.forall₂_along,
  DeclSite.SameType.key

A declaration stands in the ones around it, and each of these is a place of its own.  If the declarations at
two places have the same names around them, then so have those around them, one by one.
-/
import Mathlib.Data.List.Forall2
import Graft.Proofs.Program.Indexed

namespace Graft

namespace DeclSite

variable {spaces spaces' : List NamespaceDecl} {s t : DeclSite}

/-! ### Places inside one another -/

/-- Declarations that are nested in one another, the first of them in `outer`. -/
def along (spaces : List NamespaceDecl) (outer : List TypeDecl) : List TypeDecl → List DeclSite
  | [] => []
  | d :: rest => ⟨spaces, outer, d⟩ :: along spaces (outer ++ [d]) rest

theorem along_append_singleton (outer list : List TypeDecl) (d : TypeDecl) :
    along spaces outer (list ++ [d]) = along spaces outer list ++ [⟨spaces, outer ++ list, d⟩] := by
  induction list generalizing outer with
  | nil => rw [List.nil_append, along, along, along, List.append_nil, List.nil_append]
  | cons first rest ih =>
      rw [List.cons_append, along, along, ih, List.append_assoc, List.singleton_append]
      rfl

theorem map_decl_along (outer list : List TypeDecl) : (along spaces outer list).map (·.decl) = list := by
  induction list generalizing outer with
  | nil => rfl
  | cons d rest ih => rw [along, List.map_cons, ih]

theorem decl_mem_of_mem_along {outer list : List TypeDecl} (h : s ∈ along spaces outer list) :
    s.decl ∈ list :=
  map_decl_along outer list ▸ List.mem_map_of_mem h

/-- The declarations around one, the outermost first, and the declaration itself. -/
def outward (s : DeclSite) : List DeclSite := along s.spaces [] (s.containers ++ [s.decl])

theorem outward_of_top (h : s.containers = []) : s.outward = [s] := by
  obtain ⟨spaces, containers, decl⟩ := s
  obtain rfl : containers = [] := h
  rfl

theorem outward_of_nested {outer : List TypeDecl} {d : TypeDecl} (h : s.containers = outer ++ [d]) :
    s.outward = (⟨s.spaces, outer, d⟩ : DeclSite).outward ++ [s] := by
  rw [outward, along_append_singleton, List.nil_append, h]
  rw [show (⟨s.spaces, outer ++ [d], s.decl⟩ : DeclSite) = s by rw [← h]]
  rfl

/-- Properties declare no types. -/
theorem ofMembers_of_properties {containers : List TypeDecl} {members : List MemberDecl}
    (h : ∀ m ∈ members, ∃ p, m = .property p) : ofMembers spaces containers members = [] := by
  induction members with
  | nil => rw [ofMembers]
  | cons m rest ih =>
      obtain ⟨p, rfl⟩ := h m List.mem_cons_self
      rw [ofMembers, ofMember, ih fun n hn => h n (List.mem_cons_of_mem _ hn)]
      rfl

theorem ofType_eq (containers : List TypeDecl) (d : TypeDecl) :
    ofType spaces containers d = ⟨spaces, containers, d⟩ :: ofMembers spaces
      (containers ++ [d]) d.members := by
  obtain ⟨id, attributes, modifiers, kind, name, typeParams, members, span⟩ := d
  rw [ofType]

/-! ### Types with the same names -/

/-- Places with the same names have one key. -/
theorem SameType.key (same : s.SameType t) : s.key = t.key := by
  have hchain := same.chain
  rw [DeclSite.chain, DeclSite.chain] at hchain
  rw [DeclSite.key, DeclSite.key, identity, identity, identityIn_eq_foldl, identityIn_eq_foldl,
    same.path, hchain]

/-- Two declarations have the same name and as many type parameters. -/
def SameNames (d d' : TypeDecl) : Prop := d.name.name = d'.name.name ∧ d.arity = d'.arity

/-- With the same names the places inside one another are alike. -/
theorem forall₂_along {spaces spaces' : List NamespaceDecl}
    (hpath : spaces.flatMap (·.path) = spaces'.flatMap (·.path)) {list list' : List TypeDecl} :
    ∀ {outer outer' : List TypeDecl},
      (outer.map fun d => (d.name.name, d.arity)) = (outer'.map fun d => (d.name.name, d.arity)) →
      List.Forall₂ SameNames list list' →
        List.Forall₂ SameType (along spaces outer list) (along spaces' outer' list') := by
  intro outer outer' houter h
  induction h generalizing outer outer' with
  | nil => exact .nil
  | @cons d d' _ _ hd _ ih =>
      have hchain : ((outer ++ [d]).map fun d => (d.name.name, d.arity)) =
          (outer' ++ [d']).map fun d => (d.name.name, d.arity) := by
        rw [List.map_append, List.map_append, houter, List.map_singleton, List.map_singleton, hd.1, hd.2]
      exact .cons ⟨hpath, hchain⟩ (ih hchain)

end DeclSite

/-- The declarations around one of a tree are in the tree, and hold others. -/
theorem SourceTree.mem_sites_of_mem_outward {t : SourceTree} (containers : List TypeDecl) :
    ∀ {s : DeclSite}, s ∈ t.sites → s.containers = containers →
      ∀ u ∈ s.outward, u ∈ t.sites ∧ (u = s ∨ u.decl.members ≠ []) := by
  induction containers using List.reverseRecOn with
  | nil =>
      intro s hs htop u hu
      rw [DeclSite.outward_of_top htop, List.mem_singleton] at hu
      exact ⟨hu ▸ hs, .inl hu⟩
  | append_singleton outer d ih =>
      intro s hs hnested u hu
      rw [DeclSite.outward_of_nested hnested] at hu
      rcases List.mem_append.1 hu with hu | hu
      · obtain ⟨hparent, hmem⟩ := mem_sites_parent hs hnested
        obtain ⟨hu, rfl | hmembers⟩ := ih hparent rfl u hu
        · exact ⟨hu, .inr (List.ne_nil_of_mem hmem)⟩
        · exact ⟨hu, .inr hmembers⟩
      · obtain rfl := List.mem_singleton.1 hu
        exact ⟨hs, .inl rfl⟩

end Graft
