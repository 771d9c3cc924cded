/-
Module: Graft.Proofs.Program.Reached
Purpose: The registries that registration leads to, and where the types in them stand.
Main exports: Registry.Reached, Registration.reached_ofTrees, Registry.Regular, Registry.Regular.sameType,
  Registry.fullName, Registry.Regular.fullName_eq

A declaration is registered only after those around it, in a namespace that is there.  Its full name does
not say where its namespace ends and the types around it begin.  If no type is named like a namespace there
is one way only to read the full name of a registered type.
-/
import Graft.Proofs.Program.Indexed

namespace Graft

/-! ### Registries that are reached -/

namespace Registry

/-- The registries that the registration of declarations in trees leads to.  A declaration is placed when
those around it are registered and its namespace is there. -/
inductive Reached (trees : List SourceTree) : Registry → Prop where
  | empty : Reached trees .empty
  | space {r : Registry} (path : List String) (reached : Reached trees r) :
      Reached trees (r.createSpace path)
  | place {r r' : Registry} {origin : Origin} {s : DeclSite} (mem : s ∈ trees.flatMap (·.sites))
      (enclosed : ∀ c ∈ s.containerKeys, (r.get? c).isSome) (housed : (r.spaces.find? s.path).isSome)
      (placed : Registration.place r origin s = .ok r') (reached : Reached trees r) : Reached trees r'

variable {r r' : Registry} {trees : List SourceTree} {sites : List DeclSite} {s : DeclSite}

/-- The types around a declaration are registered, and its namespace is there. -/
structure Surrounds (r : Registry) (s : DeclSite) : Prop where
  enclosed : ∀ c ∈ s.containerKeys, (r.get? c).isSome
  housed : (r.spaces.find? s.path).isSome

/-- Types and namespaces stay. -/
structure Extends (r r' : Registry) : Prop where
  types : ∀ key, (r.get? key).isSome → (r'.get? key).isSome
  spaces : r.spaces.Within r'.spaces

theorem Surrounds.mono (h : r.Surrounds s) (more : r.Extends r') : r'.Surrounds s where
  enclosed c hc := more.types c (h.enclosed c hc)
  housed := by
    obtain ⟨home, hhome⟩ := Option.isSome_iff_exists.1 h.housed
    exact Option.isSome_iff_exists.2 ⟨home, NamespaceTree.descend?_within more.spaces hhome⟩

theorem extends_createSpace (r : Registry) (path : List String) : r.Extends (r.createSpace path) :=
  ⟨fun _ h => h, (NamespaceTree.createFrom_spec path r.spaces NamespaceTree.root).1⟩

theorem extends_place {origin : Origin} (h : Registration.place r origin s = .ok r') : r.Extends r' := by
  rcases Registration.place_cases h with hregister | rfl
  · refine ⟨fun key hkey => ?_, ?_⟩
    · rw [(register_eq_ok hregister).2.2]
      split
      · rfl
      · exact hkey
    · obtain ⟨-, ⟨c, -, -, rfl⟩ | ⟨-, rfl⟩⟩ := register_cases hregister
      · exact List.prefix_refl _
      · exact (NamespaceTree.createFrom_spec _ r.spaces NamespaceTree.root).1.trans
          (NamespaceTree.within_register _ _ _ _)
  · have alike := Alike.modify r s.key (f := (·.withPart s.decl)) fun e => e.bare_withPart s.decl
    exact ⟨fun key hkey => (alike.isSome_get? key).trans hkey, alike.spaces ▸ List.prefix_refl _⟩

/-- Every type is first declared where the types around are registered and the namespace is there. -/
def Rooted (sites : List DeclSite) (r : Registry) : Prop :=
  ∀ key e, r.get? key = some e → ∃ s ∈ sites, s.key = key ∧ e.DeclaredAt s ∧ r.Surrounds s

theorem Rooted.createSpace (h : r.Rooted sites) (path : List String) :
    (r.createSpace path).Rooted sites := by
  intro key e he
  obtain ⟨s, hs, hkey, declared, surrounds⟩ := h key e he
  exact ⟨s, hs, hkey, declared, surrounds.mono (extends_createSpace r path)⟩

theorem Rooted.place (h : r.Rooted sites) {origin : Origin} (mem : s ∈ sites) (surrounds : r.Surrounds s)
    (placed : Registration.place r origin s = .ok r') : r'.Rooted sites := by
  have more := extends_place placed
  have hold : ∀ key e, r.get? key = some e → ∀ e' : TypeEntry, e'.bare = e.bare →
      ∃ t ∈ sites, t.key = key ∧ e'.DeclaredAt t ∧ r'.Surrounds t := by
    intro key e he e' hbare
    obtain ⟨t, ht, hkey, ⟨origin, declared⟩, surrounds⟩ := h key e he
    exact ⟨t, ht, hkey, ⟨origin, hbare.trans declared⟩, surrounds.mono more⟩
  intro key e he
  rcases Registration.place_cases placed with hregister | rfl
  · rw [(register_eq_ok hregister).2.2] at he
    split at he
    · rename_i hkey
      cases he
      exact ⟨s, mem, hkey.symm, ⟨origin, rfl⟩, surrounds.mono more⟩
    · exact hold key e he e rfl
  · rw [get?_modify] at he
    split at he
    · rename_i hkey
      obtain ⟨old, hget, rfl⟩ := Option.map_eq_some_iff.1 he
      exact hold key old (hkey ▸ hget) _ (old.bare_withPart s.decl)
    · exact hold key e he e rfl

/-- What is known of every registry that is reached. -/
theorem Reached.spec (reached : r.Reached trees) :
    r.Indexed ∧ r.From (trees.flatMap (·.sites)) ∧ r.Rooted (trees.flatMap (·.sites)) := by
  induction reached with
  | empty => exact ⟨.empty, .empty, fun _ _ he => by cases he⟩
  | space path _ ih => exact ⟨ih.1.createSpace path, ih.2.1.createSpace path, ih.2.2.createSpace path⟩
  | @place r r' origin s mem enclosed housed placed _ ih =>
      have rooted := ih.2.2.place mem ⟨enclosed, housed⟩ placed
      rcases Registration.place_cases placed with hregister | rfl
      · exact ⟨ih.1.register hregister, ih.2.1.register mem hregister, rooted⟩
      · exact ⟨ih.1.modify _ fun e => e.bare_withPart s.decl, ih.2.1.modify _ fun e =>
          e.bare_withPart s.decl, rooted⟩

end Registry

/-! ### Registration of trees -/

namespace DeclSite

mutual

/-- A declaration in a namespace declaration stands in one of the chains of it. -/
theorem spaces_mem_chains_ofSpace (outer : List NamespaceDecl) :
    ∀ decl : NamespaceDeclOf NamespaceMember, ∀ s ∈ ofSpace outer decl,
    s.spaces ∈ NamespaceDecl.chains outer decl
  | ⟨name, fileScoped, usings, members, span⟩ => by
      intro s hs
      rw [ofSpace] at hs
      rw [NamespaceDecl.chains]
      rcases spaces_mem_chains_ofSpaceMembers _ members s hs with heq | hmem
      · exact heq ▸ List.mem_cons_self
      · exact List.mem_cons_of_mem _ hmem

theorem spaces_mem_chains_ofSpaceMembers (outer : List NamespaceDecl) :
    ∀ members : List NamespaceMember, ∀ s ∈ ofSpaceMembers outer members,
      s.spaces = outer ∨ s.spaces ∈ NamespaceMember.chains outer members
  | [] => by simp [ofSpaceMembers]
  | .space decl :: rest => by
      intro s hs
      rw [ofSpaceMembers] at hs
      rw [NamespaceMember.chains]
      rcases List.mem_append.1 hs with hs | hs
      · exact .inr (List.mem_append_left _ (spaces_mem_chains_ofSpace outer decl s hs))
      · exact (spaces_mem_chains_ofSpaceMembers outer rest s hs).imp_right (List.mem_append_right _)
  | .type decl :: rest => by
      intro s hs
      rw [ofSpaceMembers] at hs
      rw [NamespaceMember.chains]
      rcases List.mem_append.1 hs with hs | hs
      · exact .inl (heldIn_ofType [] decl s hs).1
      · exact spaces_mem_chains_ofSpaceMembers outer rest s hs

end

/-- The types around a nested declaration are the one directly around it and the types around that one. -/
theorem containerKeys_of_nested {s : DeclSite} {outer : List TypeDecl} {d : TypeDecl}
    (h : s.containers = outer ++ [d]) :
    s.containerKeys = containerKeys ⟨s.spaces, outer, d⟩ ++ [key ⟨s.spaces, outer, d⟩] := by
  have houter : ∀ n ∈ List.range outer.length,
      TypeKey.ofName (identityIn s.path ((outer ++ [d]).take (n + 1))) =
        TypeKey.ofName (identityIn s.path (outer.take (n + 1))) := fun n hn => by
    rw [List.take_append_of_le_length (Nat.succ_le_of_lt (List.mem_range.1 hn))]
  rw [containerKeys, h, List.length_append, List.length_singleton, List.range_succ, List.map_append,
    List.map_congr_left houter]
  simp only [List.map_cons, List.map_nil]
  rw [List.take_of_length_le (by simp)]
  rfl

theorem containerKeys_of_top {s : DeclSite} (h : s.containers = []) : s.containerKeys = [] := by
  rw [containerKeys, h]
  rfl

/-- The keys of the types around a declaration are those of the declarations around it. -/
theorem exists_of_mem_containerKeys {t : SourceTree} (containers : List TypeDecl) :
    ∀ {s : DeclSite}, s ∈ t.sites → s.containers = containers → ∀ c ∈ s.containerKeys,
      ∃ u ∈ t.sites, u.key = c ∧ u.decl ∈ containers := by
  induction containers using List.reverseRecOn with
  | nil =>
      intro s _ htop c hc
      rw [containerKeys_of_top htop] at hc
      cases hc
  | append_singleton outer d ih =>
      intro s hs hnested c hc
      have hparent := (SourceTree.mem_sites_parent hs hnested).1
      rw [containerKeys_of_nested hnested] at hc
      rcases List.mem_append.1 hc with hc | hc
      · obtain ⟨u, hu, hkey, hdecl⟩ := ih hparent rfl c hc
        exact ⟨u, hu, hkey, List.mem_append_left _ hdecl⟩
      · exact ⟨_, hparent, (List.mem_singleton.1 hc).symm,
          List.mem_append_right _ (List.mem_singleton_self d)⟩

end DeclSite

namespace Registration

variable {trees : List SourceTree}

/-- When the namespaces of a tree are added, the others stay, and each of its
namespace declarations has one. -/
theorem addSpaces_spec (r : Registry) (t : SourceTree) :
    r.spaces.Within (addSpaces r t).spaces ∧
      ∀ chain ∈ t.chains, ((addSpaces r t).spaces.find? (chain.flatMap (·.path))).isSome := by
  unfold addSpaces
  induction t.chains generalizing r with
  | nil => exact ⟨List.prefix_refl _, fun _ h => (List.not_mem_nil h).elim⟩
  | cons chain rest ih =>
      obtain ⟨hwithin, hfound⟩ :=
        NamespaceTree.createFrom_spec (chain.flatMap (·.path)) r.spaces NamespaceTree.root
      obtain ⟨hrest, hall⟩ := ih (r.createSpace (chain.flatMap (·.path)))
      refine ⟨hwithin.trans hrest, fun other hother => ?_⟩
      rcases List.mem_cons.1 hother with rfl | hother
      · exact Option.isSome_iff_exists.2 ⟨_, NamespaceTree.descend?_within hrest hfound⟩
      · exact hall other hother

/-- The namespaces of a tree are there once its namespaces are added. -/
theorem housed_addSpaces (r : Registry) {t : SourceTree} {s : DeclSite} (hs : s ∈ t.sites) :
    ((addSpaces r t).spaces.find? s.path).isSome := by
  rcases DeclSite.spaces_mem_chains_ofSpaceMembers [] t.file.members s hs with htop | hchain
  · rw [DeclSite.path, htop]
    rfl
  · exact (addSpaces_spec r t).2 s.spaces hchain

/-- A registration with a registry that is reached, and with declarations of registered types. -/
structure Reaches (trees : List SourceTree) (g : Registration) : Prop where
  reached : g.registry.Reached trees
  declared : ∀ s ∈ trees.flatMap (·.sites), g.declared.contains s.decl.id = true →
    (g.registry.get? s.key).isSome

/-- With different numbers for all declarations, placing one leads on. -/
theorem Reaches.add {g : Registration} (h : g.Reaches trees)
    (numbers : ((trees.flatMap (·.sites)).map (·.decl.id)).Nodup) {t : SourceTree} (ht : t ∈ trees)
    {s : DeclSite} (hs : s ∈ t.sites) (housed : (g.registry.spaces.find? s.path).isSome) :
    (g.add t.origin s).Reaches trees ∧ g.registry.Extends (g.add t.origin s).registry := by
  have hself : g.registry.Extends g.registry := ⟨fun _ hkey => hkey, List.prefix_refl _⟩
  have hmem : s ∈ trees.flatMap (·.sites) := List.mem_flatMap.2 ⟨t, ht, hs⟩
  rw [Registration.add]
  split
  · rename_i hopen
    cases hplace : place g.registry t.origin s with
    | error _ => exact ⟨⟨h.reached, h.declared⟩, hself⟩
    | ok r =>
        have more := Registry.extends_place hplace
        have enclosed : ∀ c ∈ s.containerKeys, (g.registry.get? c).isSome := by
          intro c hc
          obtain ⟨u, hu, rfl, hdecl⟩ := DeclSite.exists_of_mem_containerKeys s.containers hs rfl c hc
          exact h.declared u (List.mem_flatMap.2 ⟨t, ht, hu⟩) (List.all_eq_true.1 hopen u.decl hdecl)
        refine ⟨⟨.place hmem enclosed housed hplace h.reached, fun u hu hdeclared => ?_⟩, more⟩
        rw [Assoc.contains, Assoc.get?_insert] at hdeclared
        split at hdeclared
        · rename_i hid
          obtain rfl := List.inj_on_of_nodup_map numbers hu hmem hid
          obtain ⟨-, e, he, -⟩ := place_eq_ok hplace
          exact Option.isSome_of_eq_some he
        · exact more.types _ (h.declared u hu hdeclared)
  · exact ⟨h, hself⟩

theorem Reaches.addTree {g : Registration} (h : g.Reaches trees)
    (numbers : ((trees.flatMap (·.sites)).map (·.decl.id)).Nodup) {t : SourceTree} (ht : t ∈ trees) :
    (g.addTree t).Reaches trees := by
  have hspaces : ∀ (chains : List (List NamespaceDecl)) (r : Registry), r.Reached trees →
      let r' := chains.foldl (fun r chain => r.createSpace (chain.flatMap (·.path))) r
      r'.Reached trees ∧ r'.types = r.types := by
    intro chains
    induction chains with
    | nil => exact fun r hr => ⟨hr, rfl⟩
    | cons chain rest ih => exact fun r hr => ih _ (.space _ hr)
  have hsites : ∀ (sites : List DeclSite), (∀ s ∈ sites, s ∈ t.sites) → ∀ g : Registration, g.Reaches trees →
      (∀ s ∈ t.sites, (g.registry.spaces.find? s.path).isSome) →
      (sites.foldl (fun g s => g.add t.origin s) g).Reaches trees := by
    intro sites
    induction sites with
    | nil => exact fun _ _ hg _ => hg
    | cons s rest ih =>
        intro hmem g hg housed
        have hs := hmem s List.mem_cons_self
        obtain ⟨hadd, more⟩ := hg.add numbers ht hs (housed s hs)
        refine ih (fun u hu => hmem u (List.mem_cons_of_mem _ hu)) _ hadd fun u hu => ?_
        obtain ⟨home, hhome⟩ := Option.isSome_iff_exists.1 (housed u hu)
        exact Option.isSome_iff_exists.2 ⟨home, NamespaceTree.descend?_within more.spaces hhome⟩
  obtain ⟨hreached, htypes⟩ := hspaces t.chains g.registry h.reached
  refine hsites t.sites (fun _ hs => hs) _ ⟨hreached, fun s hs hdeclared => ?_⟩ fun s hs =>
    housed_addSpaces _ hs
  have hkeys := h.declared s hs hdeclared
  rw [Registry.get?] at hkeys ⊢
  exact htypes.symm ▸ hkeys

/-- Registering trees that were read without errors and have different numbers leads to their registry. -/
theorem reached_ofTrees (hread : ∀ t ∈ trees, ∃ id d, SourceTree.parse id d = .ok t)
    (hids : (trees.map (·.id)).Nodup) : (ofTrees trees).registry.Reached trees := by
  have numbers := nodup_numbers hread hids
  have htrees : ∀ (list : List SourceTree), (∀ t ∈ list, t ∈ trees) → ∀ g : Registration, g.Reaches trees →
      (list.foldl Registration.addTree g).Reaches trees := by
    intro list
    induction list with
    | nil => exact fun _ _ hg => hg
    | cons t rest ih =>
        exact fun hmem g hg => ih (fun u hu => hmem u (List.mem_cons_of_mem _ hu)) _
          (hg.addTree numbers (hmem t List.mem_cons_self))
  exact (htrees trees (fun _ ht => ht) .empty ⟨.empty, fun _ _ h => by cases h⟩).reached

end Registration

/-! ### Full names -/

/-- A type has the names and the place of a declaration. -/
structure TypeEntry.StandsAt (e : TypeEntry) (s : DeclSite) : Prop where
  space : e.space = s.path
  name : e.name = s.decl.name.name
  arity : e.arity = s.decl.arity
  container? : e.container? = s.container?
  depth : e.qualified.path.length = s.path.length + s.containers.length

namespace Registry

variable {r : Registry} {sites : List DeclSite} {s u : DeclSite}

/-- No type has the dotted name of a namespace. -/
def Apart (r : Registry) : Prop := ∀ key e, r.get? key = some e → r.spaces.find? e.qualified.segments = none

/-- A registry in which a full name can be read in one way only. -/
structure Regular (sites : List DeclSite) (r : Registry) : Prop where
  indexed : r.Indexed
  declared : r.From sites
  rooted : r.Rooted sites
  closed : DeclSite.Closed sites
  named : ∀ s ∈ sites, s.Named fun i => Text.IsWord i.name
  apart : r.Apart

/-- The declared type is registered, with the types around the declaration, and its namespace is there. -/
structure Stood (sites : List DeclSite) (r : Registry) (s : DeclSite) : Prop where
  mem : s ∈ sites
  there : (r.get? s.key).isSome
  surrounds : r.Surrounds s

/-- The names of the types around a type and its own with their numbers of type
parameters, the outermost first. -/
def nesting (r : Registry) (key : TypeKey) : List (String × Nat) :=
  ((r.chain key).map fun e => (e.name, e.arity)).reverse

/-- The segments of the full name of a type with their numbers of type parameters: the namespace, the types
around the type, and its own name. -/
def fullName (r : Registry) (key : TypeKey) : List (String × Nat) :=
  (((r.get? key).map (·.space)).getD []).map (·, 0) ++ r.nesting key

theorem Indexed.nesting_eq (h : r.Indexed) {key : TypeKey} {e : TypeEntry} (he : r.get? key = some e) :
    r.nesting key = (e.container?.map r.nesting).getD [] ++ [(e.name, e.arity)] := by
  rw [nesting, h.chain_eq he, List.map_cons, List.reverse_cons]
  cases e.container? <;> rfl

namespace Regular

variable (h : r.Regular sites)
include h

/-- The declaration directly around one stands as well. -/
theorem stood_parent (stood : r.Stood sites s) {outer : List TypeDecl} {d : TypeDecl}
    (hs : s.containers = outer ++ [d]) :
    r.Stood sites ⟨s.spaces, outer, d⟩ where
  mem := h.closed.parent s stood.mem outer d hs
  there := stood.surrounds.enclosed _ (by
    rw [DeclSite.containerKeys_of_nested hs]
    exact List.mem_append_right _ (List.mem_singleton_self _))
  surrounds :=
    { enclosed := fun c hc => stood.surrounds.enclosed c (by
        rw [DeclSite.containerKeys_of_nested hs]
        exact List.mem_append_left _ hc)
      housed := stood.surrounds.housed }

/-- A registered type is first declared at a place with the full name of every other declaration of it. -/
theorem first (stood : r.Stood sites s) :
    ∃ e u, r.get? s.key = some e ∧ e.DeclaredAt u ∧ r.Stood sites u ∧ u.fullName = s.fullName := by
  obtain ⟨e, he⟩ := Option.isSome_iff_exists.1 stood.there
  obtain ⟨u, hu, hkey, declared, surrounds⟩ := h.rooted s.key e he
  exact ⟨e, u, he, declared, ⟨hu, hkey ▸ stood.there, surrounds⟩,
    DeclSite.identity_inj (h.named u hu) (h.named s stood.mem) (h.closed.distinct u hu s stood.mem hkey)⟩

/-- The name of a type that stands is no namespace. -/
theorem not_space (stood : r.Stood sites s) : r.spaces.find? (s.fullName.map Prod.fst) = none := by
  obtain ⟨e, u, he, declared, -, hfull⟩ := h.first stood
  rw [← hfull, DeclSite.names_fullName, ← declared.qualified]
  exact h.apart s.key e he

/-- Neither is the name of a type around it. -/
theorem not_space_take (containers : List TypeDecl) :
    ∀ {s : DeclSite}, r.Stood sites s → s.containers = containers → ∀ count, 0 < count →
      count ≤ s.chain.length → r.spaces.find? (s.path ++ (s.chain.take count).map Prod.fst) = none := by
  have hwhole : ∀ {s : DeclSite}, r.Stood sites s →
      r.spaces.find? (s.path ++ s.chain.map Prod.fst) = none := by
    intro s stood
    have hnone := h.not_space stood
    rw [DeclSite.fullName, List.map_append, List.map_map] at hnone
    rwa [show s.path.map (Prod.fst ∘ fun x => (x, 0)) = s.path from List.map_id _] at hnone
  induction containers using List.reverseRecOn with
  | nil =>
      intro s stood htop count hpos hcount
      rw [List.take_of_length_le (by rw [DeclSite.chain_of_top htop]; exact hpos)]
      exact hwhole stood
  | append_singleton outer d ih =>
      intro s stood hnested count hpos hcount
      have hchain := DeclSite.chain_of_nested hnested
      by_cases hlast : count ≤ (DeclSite.chain ⟨s.spaces, outer, d⟩).length
      · rw [hchain, List.take_append_of_le_length hlast]
        exact ih (h.stood_parent stood hnested) rfl count hpos hlast
      · rw [List.take_of_length_le (by rw [hchain, List.length_append, List.length_singleton]; omega)]
        exact hwhole stood

/-- A path that is longer than a namespace around some types and goes on with the first of them is none. -/
theorem not_longer (stood : r.Stood sites s) (housed : (r.spaces.find? u.path).isSome)
    {more : List (String × Nat)} {rest : List (String × Nat)}
    (hpath : u.path.map (·, 0) = s.path.map (·, 0) ++ more) (hchain : s.chain = more ++ rest) :
    more = [] := by
  rcases more with _ | ⟨first, more⟩
  · rfl
  · have hnone := h.not_space_take s.containers stood rfl 1 Nat.one_pos (by rw [hchain]; simp)
    have hupath : u.path = (s.path ++ [first.1]) ++ more.map Prod.fst := by
      have hmap := congrArg (List.map Prod.fst) hpath
      rw [List.map_append, List.map_map, List.map_map] at hmap
      rw [show u.path.map (Prod.fst ∘ fun x => (x, 0)) = u.path from List.map_id _,
        show s.path.map (Prod.fst ∘ fun x => (x, 0)) = s.path from List.map_id _] at hmap
      rw [hmap]
      simp
    rw [hchain] at hnone
    rw [hupath, NamespaceTree.find?, NamespaceTree.descend?_append] at housed
    rw [show r.spaces.descend? NamespaceTree.root (s.path ++ [first.1]) = none from hnone] at housed
    cases housed

/-- Declarations with one full name declare the same type. -/
theorem sameType (stood : r.Stood sites s) (stood' : r.Stood sites u) (hfull : s.fullName = u.fullName) :
    s.SameType u := by
  -- if one namespace went on where the other ends, it would go on with a type around the other declaration
  have hpath : s.path.map (·, 0) = u.path.map (·, 0) ∧ s.chain = u.chain := by
    rcases List.append_eq_append_iff.1 hfull with ⟨more, hu, hs⟩ | ⟨more, hs, hu⟩
    · obtain rfl := h.not_longer stood stood'.surrounds.housed hu hs
      exact ⟨by simpa using hu.symm, hs⟩
    · obtain rfl := h.not_longer stood' stood.surrounds.housed hs hu
      exact ⟨by simpa using hs, hu.symm⟩
  exact ⟨(List.map_inj_right fun _ _ heq => (Prod.mk.inj heq).1).1 hpath.1, hpath.2⟩

/-- A registered type has the names and the place of each of its declarations. -/
theorem standsAt (stood : r.Stood sites s) : ∃ e, r.get? s.key = some e ∧ e.StandsAt s := by
  obtain ⟨e, u, he, declared, stood', hfull⟩ := h.first stood
  have same := h.sameType stood' stood hfull
  have hdepth : u.containers.length = s.containers.length := by
    have hlength := congrArg List.length same.containers
    rwa [List.length_map, List.length_map] at hlength
  refine ⟨e, he, declared.space.trans same.path, declared.name.trans same.name,
    declared.arity.trans same.arity, declared.container?.trans same.container?, ?_⟩
  rw [declared.qualified, DeclSite.qualified, List.length_append, List.length_map, hdepth, same.path]

theorem nesting_eq (containers : List TypeDecl) :
    ∀ {s : DeclSite}, r.Stood sites s → s.containers = containers → r.nesting s.key = s.chain := by
  induction containers using List.reverseRecOn with
  | nil =>
      intro s stood htop
      obtain ⟨e, he, at_s⟩ := h.standsAt stood
      rw [h.indexed.nesting_eq he, at_s.container?, DeclSite.container?_of_top htop,
        DeclSite.chain_of_top htop, at_s.name, at_s.arity]
      rfl
  | append_singleton outer d ih =>
      intro s stood hnested
      obtain ⟨e, he, at_s⟩ := h.standsAt stood
      rw [h.indexed.nesting_eq he, at_s.container?, DeclSite.container?_of_nested hnested, Option.map_some,
        Option.getD_some, ih (h.stood_parent stood hnested) rfl, DeclSite.chain_of_nested hnested, at_s.name,
        at_s.arity]

/-- The full name of a type is that of each of its declarations. -/
theorem fullName_eq (stood : r.Stood sites s) : r.fullName s.key = s.fullName := by
  obtain ⟨e, he, at_s⟩ := h.standsAt stood
  rw [fullName, he, h.nesting_eq s.containers stood rfl, Option.map_some, Option.getD_some, at_s.space]
  rfl

/-- Every registered type has a declaration that stands. -/
theorem exists_stood {key : TypeKey} {e : TypeEntry} (he : r.get? key = some e) :
    ∃ s, r.Stood sites s ∧ s.key = key ∧ e.DeclaredAt s := by
  obtain ⟨s, hs, hkey, declared, surrounds⟩ := h.rooted key e he
  exact ⟨s, ⟨hs, hkey ▸ Option.isSome_of_eq_some he, surrounds⟩, hkey, declared⟩

end Regular

/-- A registry that is reached from trees that were read without errors is regular if no two of the full
names have one digest and no type is named like a namespace. -/
theorem Reached.regular {trees : List SourceTree} (reached : r.Reached trees)
    (hread : ∀ t ∈ trees, ∃ id d, SourceTree.parse id d = .ok t)
    (distinct : ∀ s ∈ trees.flatMap (·.sites), ∀ u ∈ trees.flatMap (·.sites), s.key = u.key →
      s.identity = u.identity)
    (apart : r.Apart) : r.Regular (trees.flatMap (·.sites)) where
  indexed := reached.spec.1
  declared := reached.spec.2.1
  rooted := reached.spec.2.2
  closed := DeclSite.closed_sites distinct
  named := SourceTree.named_of_mem_flatMap_sites hread
  apart := apart

end Registry

end Graft
