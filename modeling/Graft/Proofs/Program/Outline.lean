/-
Module: Graft.Proofs.Program.Outline
Purpose: What registration reads of a tree.
Main exports: DeclOutline, SourceTree.outline, SourceTree.outline_eq_of_bare,
  SourceTree.SameDeclarations, SourceTree.sameDeclarations_of_bare, Registration.SameState,
  Registration.sameState_ofTrees

Registration reads which namespaces a tree declares and which types with which heads.  It reads no
directives, no written types, no attributes and no bodies.  So it does not tell trees apart that have
one outline, but for the places that it reports errors at.
-/
import Graft.Proofs.Program.Registered

namespace Graft

/-! ### Outlines -/

/-- A type declaration without its members and attributes. -/
structure TypeOutline where
  id : DeclId
  modifiers : Modifiers
  kind : TypeKind
  name : String
  params : List String
deriving DecidableEq, Repr

/-- A declaration of a type without its members and attributes. -/
def TypeDeclOf.outline {μ : Type} (d : TypeDeclOf μ) :
    TypeOutline := ⟨d.id, d.modifiers, d.kind, d.name.name, d.paramNames⟩

/-- A member declaration without types, values and attributes. -/
inductive MemberOutline where
  | field (modifiers : Modifiers) (names : List String)
  | property (modifiers : Modifiers) (name : String)
  | method (modifiers : Modifiers) (name : String)
  | event (modifiers : Modifiers) (names : List String)
  | type (id : DeclId) (name : String)
  | other
deriving DecidableEq, Repr

/-- A member declaration without types, values and attributes. -/
def MemberDecl.outline : MemberDecl → MemberOutline
  | .field d => .field d.modifiers (d.declarators.map (·.name.name))
  | .property d => .property d.modifiers d.name.name
  | .method d => .method d.modifiers d.name.name
  | .event d => .event d.modifiers (d.names.map (·.name))
  | .type d => .type d.id d.name.name
  | .other _ => .other

/-- A declaration of a type: the namespace and the types around it, its head and those of its members. -/
structure DeclOutline where
  path : List String
  containers : List TypeOutline
  decl : TypeOutline
  members : List MemberOutline
deriving DecidableEq, Repr

/-- What is declared at a place. -/
def DeclSite.outline (s : DeclSite) : DeclOutline :=
  ⟨s.path, s.containers.map (·.outline), s.decl.outline, s.decl.members.map MemberDecl.outline⟩

/-- The namespaces and the types that a tree declares. -/
structure TreeOutline where
  spaces : List (List String)
  decls : List DeclOutline
deriving DecidableEq, Repr

/-- The namespaces and the types that a tree declares. -/
def SourceTree.outline (t : SourceTree) : TreeOutline :=
  ⟨t.chains.map fun chain => chain.flatMap (·.path), t.sites.map (·.outline)⟩

/-! ### Directives -/

mutual

/-- A namespace declaration without the directives in it. -/
def NamespaceDecl.bare : NamespaceDeclOf NamespaceMember → NamespaceDeclOf NamespaceMember
  | ⟨name, fileScoped, _, members, span⟩ => ⟨name, fileScoped, [], NamespaceMember.bare members, span⟩

/-- Members of namespaces without the directives in them. -/
def NamespaceMember.bare : List NamespaceMember → List NamespaceMember
  | [] => []
  | .space decl :: rest => .space (NamespaceDecl.bare decl) :: NamespaceMember.bare rest
  | .type decl :: rest => .type decl :: NamespaceMember.bare rest

end

namespace DeclSite

section

variable {spaces spaces' : List NamespaceDecl}

mutual

/-- Of the namespaces around declarations an outline has only the path. -/
theorem map_outline_ofType (path : spaces.flatMap (·.path) = spaces'.flatMap (·.path))
    (containers : List TypeDecl) :
    ∀ decl : TypeDeclOf MemberDecl, (ofType spaces containers decl).map outline =
      (ofType spaces' containers decl).map outline
  | ⟨id, attributes, modifiers, kind, name, typeParams, members, span⟩ => by
      rw [ofType, ofType, List.map_cons, List.map_cons, map_outline_ofMembers path _ members]
      simp only [outline, DeclSite.path, path]

theorem map_outline_ofMembers (path : spaces.flatMap (·.path) = spaces'.flatMap (·.path))
    (containers : List TypeDecl) :
    ∀ members : List MemberDecl, (ofMembers spaces containers members).map outline =
      (ofMembers spaces' containers members).map outline
  | [] => rfl
  | decl :: rest => by
      rw [ofMembers, ofMembers, List.map_append, List.map_append, map_outline_ofMember path containers decl,
        map_outline_ofMembers path containers rest]

theorem map_outline_ofMember (path : spaces.flatMap (·.path) = spaces'.flatMap (·.path))
    (containers : List TypeDecl) :
    ∀ decl : MemberDecl, (ofMember spaces containers decl).map outline =
      (ofMember spaces' containers decl).map outline
  | .type decl => by
      rw [ofMember, ofMember]
      exact map_outline_ofType path containers decl
  | .field _ | .property _ | .method _ | .event _ | .other _ => rfl

end

end

mutual

/-- Without the directives the declarations have the same outlines. -/
theorem map_outline_ofSpace_bare {outer outer' : List NamespaceDecl}
    (path : outer.flatMap (·.path) = outer'.flatMap (·.path)) :
    ∀ decl : NamespaceDeclOf NamespaceMember, (ofSpace outer (NamespaceDecl.bare decl)).map outline =
      (ofSpace outer' decl).map outline
  | ⟨name, fileScoped, usings, members, span⟩ => by
      rw [NamespaceDecl.bare, ofSpace, ofSpace]
      refine map_outline_ofSpaceMembers_bare ?_ members
      rw [List.flatMap_append, List.flatMap_append, path]
      rfl

theorem map_outline_ofSpaceMembers_bare {outer outer' : List NamespaceDecl}
    (path : outer.flatMap (·.path) = outer'.flatMap (·.path)) :
    ∀ members : List NamespaceMember, (ofSpaceMembers outer (NamespaceMember.bare members)).map outline =
      (ofSpaceMembers outer' members).map outline
  | [] => by rw [NamespaceMember.bare, ofSpaceMembers, ofSpaceMembers]
  | .space decl :: rest => by
      rw [NamespaceMember.bare, ofSpaceMembers, ofSpaceMembers, List.map_append, List.map_append,
        map_outline_ofSpace_bare path decl, map_outline_ofSpaceMembers_bare path rest]
  | .type decl :: rest => by
      rw [NamespaceMember.bare, ofSpaceMembers, ofSpaceMembers, List.map_append, List.map_append,
        map_outline_ofType path [] decl, map_outline_ofSpaceMembers_bare path rest]

end

end DeclSite

mutual

/-- Without the directives the namespaces have the same paths. -/
theorem NamespaceDecl.map_chains_bare {outer outer' : List NamespaceDecl}
    (path : outer.flatMap (·.path) = outer'.flatMap (·.path)) :
    ∀ decl : NamespaceDeclOf NamespaceMember,
      (NamespaceDecl.chains outer (NamespaceDecl.bare decl)).map (·.flatMap (·.path)) =
        (NamespaceDecl.chains outer' decl).map (·.flatMap (·.path))
  | ⟨name, fileScoped, usings, members, span⟩ => by
      have hinner : (outer ++
          [(⟨name, fileScoped, [], NamespaceMember.bare members, span⟩ : NamespaceDecl)]).flatMap
          (·.path) = (outer' ++ [(⟨name, fileScoped, usings, members, span⟩ : NamespaceDecl)]).flatMap
            (·.path) := by
        rw [List.flatMap_append, List.flatMap_append, path]
        rfl
      rw [NamespaceDecl.bare, NamespaceDecl.chains, NamespaceDecl.chains, List.map_cons,
        List.map_cons, hinner, NamespaceMember.map_chains_bare hinner members]

theorem NamespaceMember.map_chains_bare {outer outer' : List NamespaceDecl}
    (path : outer.flatMap (·.path) = outer'.flatMap (·.path)) :
    ∀ members : List NamespaceMember,
      (NamespaceMember.chains outer (NamespaceMember.bare members)).map (·.flatMap (·.path)) =
        (NamespaceMember.chains outer' members).map (·.flatMap (·.path))
  | [] => by rw [NamespaceMember.bare, NamespaceMember.chains, NamespaceMember.chains]
  | .space decl :: rest => by
      rw [NamespaceMember.bare, NamespaceMember.chains, NamespaceMember.chains, List.map_append,
        List.map_append, NamespaceDecl.map_chains_bare path decl, NamespaceMember.map_chains_bare path rest]
  | .type decl :: rest => by
      rw [NamespaceMember.bare, NamespaceMember.chains, NamespaceMember.chains]
      exact NamespaceMember.map_chains_bare path rest

end

/-- Trees that are the same without the directives in their namespaces have one outline. -/
theorem SourceTree.outline_eq_of_bare {t t' : SourceTree}
    (same : NamespaceMember.bare t.file.members = NamespaceMember.bare t'.file.members) :
    t.outline = t'.outline := by
  have hbare : ∀ u : SourceTree, u.outline =
      ⟨(NamespaceMember.chains [] (NamespaceMember.bare u.file.members)).map (·.flatMap (·.path)),
        (DeclSite.ofSpaceMembers [] (NamespaceMember.bare u.file.members)).map (·.outline)⟩ := by
    intro u
    rw [NamespaceMember.map_chains_bare rfl, DeclSite.map_outline_ofSpaceMembers_bare rfl]
    rfl
  rw [hbare t, hbare t', same]

/-- Two trees of one origin declare the same and have the same directives for all files.  They may differ in
their other directives, and in all that is not declared. -/
structure SourceTree.SameDeclarations (t t' : SourceTree) : Prop where
  origin : t.origin = t'.origin
  shared : t.file.usings.filter (·.isGlobal) = t'.file.usings.filter (·.isGlobal)
  outline : t.outline = t'.outline

/-- Trees that differ in nothing but directives for one file or namespace declare the same. -/
theorem SourceTree.sameDeclarations_of_bare {t t' : SourceTree} (origin : t.origin = t'.origin)
    (shared : t.file.usings.filter (·.isGlobal) = t'.file.usings.filter (·.isGlobal))
    (same : NamespaceMember.bare t.file.members = NamespaceMember.bare t'.file.members) :
    t.SameDeclarations t' :=
  ⟨origin, shared, outline_eq_of_bare same⟩

/-! ### What registration reads of a declaration -/

namespace DeclSite

variable {s s' : DeclSite} (same : s.outline = s'.outline)
include same

theorem path_eq_of_outline : s.path = s'.path := congrArg DeclOutline.path same

theorem containers_eq_of_outline : s.containers.map (·.outline) = s'.containers.map (·.outline) :=
  congrArg DeclOutline.containers same

theorem decl_eq_of_outline : s.decl.outline = s'.decl.outline := congrArg DeclOutline.decl same

theorem id_eq_of_outline : s.decl.id = s'.decl.id := congrArg TypeOutline.id (decl_eq_of_outline same)

/-- Declarations with one outline declare the same type. -/
theorem sameType_of_outline : s.SameType s' := by
  have hnamed : ∀ list : List TypeDecl, list.map (fun d => (d.name.name, d.arity)) =
      (list.map (·.outline)).map fun o => (o.name, o.params.length) := by
    intro list
    rw [List.map_map]
    refine List.map_congr_left fun d _ => ?_
    rw [Function.comp_apply, TypeDeclOf.outline, TypeDeclOf.paramNames, List.length_map, TypeDeclOf.arity]
  refine ⟨path_eq_of_outline same, ?_⟩
  have hall : (s.containers ++ [s.decl]).map (·.outline) = (s'.containers ++ [s'.decl]).map (·.outline) := by
    rw [List.map_append, List.map_append, containers_eq_of_outline same, List.map_singleton,
      List.map_singleton, decl_eq_of_outline same]
  rw [chain, chain, hnamed, hnamed, hall]

theorem key_eq_of_outline : s.key = s'.key := by
  have hsame := sameType_of_outline same
  have hchain := hsame.chain
  rw [chain, chain] at hchain
  rw [key, key, identity, identity, identityIn_eq_foldl, identityIn_eq_foldl, hsame.path, hchain]

theorem newEntry_eq_of_outline (origin : Origin) : s.newEntry origin = s'.newEntry origin := by
  have hdecl := decl_eq_of_outline same
  have hnames : s.containers.map (·.name.name) = s'.containers.map (·.name.name) := by
    have hmap := congrArg (List.map TypeOutline.name) (containers_eq_of_outline same)
    rw [List.map_map, List.map_map] at hmap
    exact hmap
  have hqualified : s.qualified = s'.qualified := by
    rw [qualified, qualified, path_eq_of_outline same, hnames,
      show s.decl.name.name = s'.decl.name.name from congrArg TypeOutline.name hdecl]
  rw [newEntry, newEntry, hqualified, path_eq_of_outline same, key_eq_of_outline same,
    (sameType_of_outline same).container?, id_eq_of_outline same,
    show s.decl.kind = s'.decl.kind from congrArg TypeOutline.kind hdecl,
    show s.decl.modifiers = s'.decl.modifiers from congrArg TypeOutline.modifiers hdecl,
    show s.decl.paramNames = s'.decl.paramNames from congrArg TypeOutline.params hdecl]

end DeclSite

namespace TypeEntry

variable {d d' : TypeDecl} (same : d.outline = d'.outline) (e : TypeEntry)
include same

theorem continuedBy_eq_of_outline (origin : Origin) : e.continuedBy origin d = e.continuedBy origin d' := by
  rw [continuedBy, continuedBy, show d.modifiers = d'.modifiers from congrArg TypeOutline.modifiers same,
    show d.kind = d'.kind from congrArg TypeOutline.kind same]

theorem withPart_eq_of_outline : e.withPart d = e.withPart d' := by
  rw [withPart, withPart, show d.modifiers = d'.modifiers from congrArg TypeOutline.modifiers same,
    show d.id = d'.id from congrArg TypeOutline.id same]

end TypeEntry

namespace Registration

/-! ### Registrations in the same state -/

/-- Two registrations have the same types and declarations, and as many errors. -/
structure SameState (g g' : Registration) : Prop where
  registry : g.registry = g'.registry
  declared : g.declared = g'.declared
  errors : g.errors.length = g'.errors.length

/-- A declaration has the place that another one with its outline has. -/
theorem place_of_outline {s s' : DeclSite} (same : s.outline = s'.outline) (r : Registry) (origin : Origin) :
    place r origin s = place r origin s' ∨
      ∃ e e', place r origin s = .error e ∧ place r origin s' = .error e' := by
  rw [place, place, DeclSite.key_eq_of_outline same]
  cases r.get? s'.key with
  | none =>
      dsimp only
      rw [DeclSite.newEntry_eq_of_outline same]
      exact .inl rfl
  | some e =>
      have hdecl := DeclSite.decl_eq_of_outline same
      dsimp only
      rw [e.continuedBy_eq_of_outline hdecl]
      split
      · have hpart : (fun e : TypeEntry => e.withPart s.decl) = fun e => e.withPart s'.decl :=
          funext fun e => e.withPart_eq_of_outline hdecl
        rw [hpart]
        exact .inl rfl
      · exact .inr ⟨_, _, rfl, rfl⟩

namespace SameState

variable {g g' : Registration}

theorem refl (g : Registration) : SameState g g := ⟨rfl, rfl, rfl⟩

/-- Declarations with one outline are registered alike. -/
theorem add (state : SameState g g') (origin : Origin) {s s' : DeclSite} (same : s.outline = s'.outline) :
    SameState (g.add origin s) (g'.add origin s') := by
  have hopen : g.isOpen s = g'.isOpen s' := by
    have hall := congrArg (List.all · fun o : TypeOutline => g'.declared.contains o.id)
      (DeclSite.containers_eq_of_outline same)
    simp only [List.all_map] at hall
    rw [isOpen, isOpen, state.declared]
    exact hall
  have hid := DeclSite.id_eq_of_outline same
  have hkey := DeclSite.key_eq_of_outline same
  rw [Registration.add, Registration.add, hopen, state.registry]
  split
  · rcases place_of_outline same g'.registry origin with heq | ⟨e, e', he, he'⟩
    · rw [heq, hid, hkey, state.declared]
      cases place g'.registry origin s' with
      | ok r => exact ⟨rfl, rfl, state.errors⟩
      | error e => exact ⟨rfl, rfl, by simp [state.errors]⟩
    · rw [he, he']
      exact ⟨rfl, state.declared, by simp [state.errors]⟩
  · exact state

theorem foldl_add (state : SameState g g') (origin : Origin) {sites sites' : List DeclSite}
    (same : sites.map (·.outline) = sites'.map (·.outline)) :
    SameState (sites.foldl (fun g s => g.add origin s) g) (sites'.foldl (fun g s => g.add origin s) g') := by
  induction sites generalizing sites' g g' with
  | nil =>
      obtain rfl := List.map_eq_nil_iff.1 same.symm
      exact state
  | cons s rest ih =>
      obtain ⟨s', rest', rfl, hs, hrest⟩ := List.map_eq_cons_iff.1 same.symm
      exact ih (state.add origin hs.symm) hrest.symm

/-- Trees that declare the same are registered alike. -/
theorem addTree (state : SameState g g') {t t' : SourceTree} (same : t.SameDeclarations t') :
    SameState (g.addTree t) (g'.addTree t') := by
  have hspaces : addSpaces g.registry t = addSpaces g'.registry t' := by
    have hpaths : ∀ (u : SourceTree) (r : Registry),
        addSpaces r u = u.outline.spaces.foldl Registry.createSpace r := by
      intro u r
      rw [SourceTree.outline, List.foldl_map]
      rfl
    rw [hpaths, hpaths, same.outline, state.registry]
  have hstate : SameState { g with registry := addSpaces g.registry t }
      { g' with registry := addSpaces g'.registry t' } := ⟨hspaces, state.declared, state.errors⟩
  rw [Registration.addTree, Registration.addTree, same.origin]
  exact hstate.foldl_add t'.origin (congrArg TreeOutline.decls same.outline)

theorem foldl_addTree (state : SameState g g') (trees : List SourceTree) :
    SameState (trees.foldl Registration.addTree g) (trees.foldl Registration.addTree g') := by
  induction trees generalizing g g' with
  | nil => exact state
  | cons t rest ih => exact ih (state.addTree ⟨rfl, rfl, rfl⟩)

end SameState

/-- Lists of trees of which one tree is another one that declares the same are registered alike. -/
theorem sameState_ofTrees (before after : List SourceTree) {t t' : SourceTree}
    (same : t.SameDeclarations t') :
    SameState (ofTrees (before ++ t :: after)) (ofTrees (before ++ t' :: after)) := by
  rw [ofTrees, ofTrees, List.foldl_append, List.foldl_append]
  exact (((SameState.refl .empty).foldl_addTree before).addTree same).foldl_addTree after

end Registration

end Graft
