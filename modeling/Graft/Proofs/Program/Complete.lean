/-
Module: Graft.Proofs.Program.Complete
Purpose: A registration without errors leaves no declaration out.
Main exports: Registration.Holds, Registration.holds_of_errors,
  Registry.Housed, Compilation.holds_of_build

The types around a declaration come before it in the text.  So if none of them is left out it is not
left out either, and what it was registered as is not taken back by later declarations.
-/
import Graft.Proofs.Program.Registered

namespace Graft

/-! ### The order of declarations -/

namespace DeclSite

/-- The types around every declaration are among those known or come before it. -/
def Nested : List TypeDecl → List DeclSite → Prop
  | _, [] => True
  | known, s :: rest => (∀ d ∈ s.containers, d ∈ known) ∧ Nested (s.decl :: known) rest

theorem Nested.mono {sites : List DeclSite} :
    ∀ {known more : List TypeDecl}, Nested known sites → (∀ d ∈ known, d ∈ more) → Nested more sites := by
  induction sites with
  | nil => exact fun _ _ => trivial
  | cons s rest ih =>
      intro known more nested hmore
      refine ⟨fun d hd => hmore d (nested.1 d hd), ih nested.2 fun d hd => ?_⟩
      rcases List.mem_cons.1 hd with rfl | hd
      · exact List.mem_cons_self
      · exact List.mem_cons_of_mem _ (hmore d hd)

theorem Nested.append {a b : List DeclSite} :
    ∀ {known : List TypeDecl}, Nested known a → Nested known b → Nested known (a ++ b) := by
  induction a with
  | nil => exact fun _ hb => hb
  | cons s rest ih =>
      exact fun ha hb => ⟨ha.1, ih ha.2 (hb.mono fun d hd => List.mem_cons_of_mem _ hd)⟩

section

variable {spaces : List NamespaceDecl}

mutual

theorem nested_ofType (containers : List TypeDecl) :
    ∀ decl : TypeDeclOf MemberDecl, Nested containers (ofType spaces containers decl)
  | ⟨id, attributes, modifiers, kind, name, typeParams, members, span⟩ => by
      rw [ofType]
      refine ⟨fun _ hd => hd, (nested_ofMembers _ members).mono fun d hd => ?_⟩
      rcases List.mem_append.1 hd with hd | hd
      · exact List.mem_cons_of_mem _ hd
      · rw [List.mem_singleton.1 hd]
        exact List.mem_cons_self

theorem nested_ofMembers (containers : List TypeDecl) :
    ∀ members : List MemberDecl, Nested containers (ofMembers spaces containers members)
  | [] => by
      rw [ofMembers]
      trivial
  | decl :: rest => by
      rw [ofMembers]
      exact (nested_ofMember containers decl).append (nested_ofMembers containers rest)

theorem nested_ofMember (containers : List TypeDecl) :
    ∀ decl : MemberDecl, Nested containers (ofMember spaces containers decl)
  | .type decl => by
      rw [ofMember]
      exact nested_ofType containers decl
  | .field _ | .property _ | .method _ | .event _ | .other _ => by
      rw [ofMember]
      trivial

end

end

mutual

theorem nested_ofSpace (outer : List NamespaceDecl) :
    ∀ decl : NamespaceDeclOf NamespaceMember, Nested [] (ofSpace outer decl)
  | ⟨name, fileScoped, usings, members, span⟩ => by
      rw [ofSpace]
      exact nested_ofSpaceMembers _ members

theorem nested_ofSpaceMembers (outer : List NamespaceDecl) :
    ∀ members : List NamespaceMember, Nested [] (ofSpaceMembers outer members)
  | [] => by
      rw [ofSpaceMembers]
      trivial
  | .space decl :: rest => by
      rw [ofSpaceMembers]
      exact (nested_ofSpace outer decl).append (nested_ofSpaceMembers outer rest)
  | .type decl :: rest => by
      rw [ofSpaceMembers]
      exact (nested_ofType [] decl).append (nested_ofSpaceMembers outer rest)

end

end DeclSite

theorem SourceTree.nested_sites (t : SourceTree) : DeclSite.Nested [] t.sites :=
  DeclSite.nested_ofSpaceMembers [] t.file.members

/-! ### Registered declarations -/

namespace Modifiers

/-- Modifiers that are there stay when others come. -/
theorem contains_union {m n k : Modifiers} (h : m.contains k) : (m.union n).contains k := by
  obtain ⟨m⟩ := m
  obtain ⟨n⟩ := n
  obtain ⟨k⟩ := k
  simp only [contains, union, beq_iff_eq] at h ⊢
  rw [← UInt32.toBitVec_inj] at h ⊢
  rw [UInt32.toBitVec_and] at h ⊢
  rw [UInt32.toBitVec_or, BitVec.and_or_distrib_right, h]
  refine BitVec.eq_of_getElem_eq fun i hi => ?_
  rw [BitVec.getElem_or, BitVec.getElem_and]
  cases k.toBitVec[i] <;> simp

theorem isPartial_union_left {m : Modifiers} (h : m.isPartial) (n : Modifiers) :
    (m.union n).isPartial := contains_union h

theorem isPartial_union_right (m : Modifiers) {n : Modifiers} (h : n.isPartial) :
    (m.union n).isPartial := by
  rw [union_comm]
  exact isPartial_union_left h m

end Modifiers

namespace Registration

variable {g : Registration} {o : Origin} {s t : DeclSite}

/-- A declaration is registered: it is a part of the type with its key, and its origin, its kind and
its being partial are those of the type. -/
structure Holds (g : Registration) (o : Origin) (s : DeclSite) : Prop where
  entry : ∃ e, g.registry.get? s.key = some e ∧ e.origin = o ∧ e.kind = s.decl.kind ∧
    (s.decl.modifiers.isPartial → e.modifiers.isPartial)
  declared : g.declared.get? s.decl.id = some s.key

/-- A type keeps its origin, its kind and its being partial while declarations are added. -/
structure Keeps (r r' : Registry) : Prop where
  entry : ∀ key e, r.get? key = some e → ∃ e', r'.get? key = some e' ∧ e'.origin = e.origin ∧
    e'.kind = e.kind ∧ (e.modifiers.isPartial → e'.modifiers.isPartial)

namespace Keeps

variable {r r' r'' : Registry}

theorem refl (r : Registry) : Keeps r r := ⟨fun _ e h => ⟨e, h, rfl, rfl, id⟩⟩

theorem trans (h : Keeps r r') (h' : Keeps r' r'') : Keeps r r'' := by
  refine ⟨fun key e he => ?_⟩
  obtain ⟨e', he', horigin, hkind, hpartial⟩ := h.entry key e he
  obtain ⟨e'', he'', horigin', hkind', hpartial'⟩ := h'.entry key e' he'
  exact ⟨e'', he'', horigin'.trans horigin, hkind'.trans hkind, fun hp => hpartial' (hpartial hp)⟩

theorem withPart (r : Registry) (key : TypeKey) (d : TypeDecl) :
    Keeps r (r.modify key (·.withPart d)) := by
  refine ⟨fun k e he => ?_⟩
  rw [Registry.get?_modify]
  split
  · rename_i hk
    subst hk
    rw [he]
    exact ⟨_, rfl, rfl, rfl, fun hp => Modifiers.isPartial_union_left hp _⟩
  · exact ⟨e, he, rfl, rfl, id⟩

theorem register {e : TypeEntry} (h : r.register e = .ok r') : Keeps r r' := by
  obtain ⟨hnew, -, hget⟩ := Registry.register_eq_ok h
  refine ⟨fun key old hold => ?_⟩
  rw [hget, if_neg (fun hkey => by rw [hkey, hnew] at hold; cases hold)]
  exact ⟨old, hold, rfl, rfl, id⟩

end Keeps

theorem place_eq_ok {r r' : Registry} (h : place r o s = .ok r') :
    Keeps r r' ∧ ∃ e, r'.get? s.key = some e ∧ e.origin = o ∧ e.kind = s.decl.kind ∧
      (s.decl.modifiers.isPartial → e.modifiers.isPartial) := by
  unfold place at h
  split at h
  · obtain ⟨-, -, hget⟩ := Registry.register_eq_ok h
    refine ⟨.register h, s.newEntry o, ?_, rfl, rfl, id⟩
    rw [hget, if_pos]
    rfl
  · rename_i e he
    split at h
    · rename_i hcontinued
      cases h
      simp only [TypeEntry.continuedBy, Bool.and_eq_true, decide_eq_true_eq] at hcontinued
      refine ⟨.withPart r _ _, e.withPart s.decl, ?_, hcontinued.2, hcontinued.1.2, fun hp => ?_⟩
      · rw [Registry.get?_modify, if_pos rfl, he]
        rfl
      · exact Modifiers.isPartial_union_right _ hp
    · cases h

theorem keeps_add (g : Registration) (o : Origin) (s : DeclSite) :
    Keeps g.registry (g.add o s).registry := by
  unfold add
  split
  · cases hplace : place g.registry o s with
    | ok r => exact (place_eq_ok hplace).1
    | error e => exact .refl _
  · exact .refl _

theorem keeps_addSpaces (r : Registry) (t : SourceTree) : Keeps r (addSpaces r t) := by
  unfold addSpaces
  induction t.chains generalizing r with
  | nil => exact .refl r
  | cons chain rest ih =>
      have hspace : Keeps r (r.createSpace (chain.flatMap (·.path))) :=
        ⟨fun _ e h => ⟨e, h, rfl, rfl, id⟩⟩
      exact hspace.trans (ih _)

/-- A declaration is registered under its key, or nothing is registered. -/
theorem add_cases (g : Registration) (o : Origin) (s : DeclSite) :
    (∃ r, g.isOpen s ∧ place g.registry o s = .ok r ∧
      g.add o s = { g with registry := r, declared := g.declared.insert s.decl.id s.key }) ∨
      (g.add o s).registry = g.registry ∧ (g.add o s).declared = g.declared := by
  unfold add
  split
  · rename_i hopen
    cases hplace : place g.registry o s with
    | ok r => exact .inl ⟨r, hopen, rfl, rfl⟩
    | error e => exact .inr ⟨rfl, rfl⟩
  · exact .inr ⟨rfl, rfl⟩

theorem declared_add (g : Registration) (o : Origin) (s : DeclSite) {id : DeclId}
    (h : id ≠ s.decl.id) : (g.add o s).declared.get? id = g.declared.get? id := by
  unfold add
  split
  · split
    · rw [Assoc.get?_insert, if_neg h]
    · rfl
  · rfl

/-- What is registered stays so. -/
theorem Holds.mono {g' : Registration} (holds : g.Holds o s) (hkeeps : Keeps g.registry g'.registry)
    (hdeclared : g'.declared.get? s.decl.id = g.declared.get? s.decl.id) : g'.Holds o s := by
  obtain ⟨⟨e, he, horigin, hkind, hpartial⟩, hkey⟩ := holds
  obtain ⟨e', he', horigin', hkind', hpartial'⟩ := hkeeps.entry _ e he
  exact ⟨⟨e', he', horigin'.trans horigin, hkind'.trans hkind, fun hp => hpartial' (hpartial hp)⟩,
    hdeclared.trans hkey⟩

/-- A declaration that is added without an error is registered. -/
theorem holds_add (hopen : g.isOpen s) (hclean : (g.add o s).errors = []) : (g.add o s).Holds o s := by
  unfold add at hclean ⊢
  rw [if_pos hopen] at hclean ⊢
  cases hplace : place g.registry o s with
  | error e =>
      rw [hplace] at hclean
      simp at hclean
  | ok r =>
      refine ⟨(place_eq_ok hplace).2, ?_⟩
      dsimp only
      rw [Assoc.get?_insert, if_pos rfl]

/-! ### Runs of registrations -/

theorem errors_prefix_add (g : Registration) (o : Origin) (s : DeclSite) :
    g.errors <+: (g.add o s).errors := by
  unfold add
  split
  · split
    · exact List.prefix_refl _
    · exact List.prefix_append _ _
  · exact List.prefix_refl _

theorem errors_prefix_foldl (o : Origin) (sites : List DeclSite) (g : Registration) :
    g.errors <+: (sites.foldl (fun g s => g.add o s) g).errors := by
  induction sites generalizing g with
  | nil => exact List.prefix_refl _
  | cons s rest ih => exact (errors_prefix_add g o s).trans (ih _)

theorem keeps_foldl (o : Origin) (sites : List DeclSite) (g : Registration) :
    Keeps g.registry (sites.foldl (fun g s => g.add o s) g).registry := by
  induction sites generalizing g with
  | nil => exact .refl _
  | cons s rest ih => exact (keeps_add g o s).trans (ih _)

theorem declared_foldl {o : Origin} {sites : List DeclSite} {id : DeclId}
    (h : ∀ s ∈ sites, id ≠ s.decl.id) (g : Registration) :
    (sites.foldl (fun g s => g.add o s) g).declared.get? id = g.declared.get? id := by
  induction sites generalizing g with
  | nil => rfl
  | cons s rest ih =>
      rw [List.foldl_cons, ih fun t ht => h t (List.mem_cons_of_mem _ ht)]
      exact declared_add g o s (h s List.mem_cons_self)

/-- If no declaration of a tree is an error, all are registered. -/
theorem holds_foldl {o : Origin} {sites : List DeclSite} {known : List TypeDecl}
    (nested : DeclSite.Nested known sites) (hids : (sites.map (·.decl.id)).Nodup) :
    ∀ {g : Registration}, (∀ d ∈ known, g.declared.contains d.id) →
      (sites.foldl (fun g s => g.add o s) g).errors = [] →
        ∀ s ∈ sites, (sites.foldl (fun g s => g.add o s) g).Holds o s := by
  induction sites generalizing known with
  | nil => simp
  | cons t rest ih =>
      intro g hknown hclean s hs
      rw [List.map_cons, List.nodup_cons] at hids
      have hopen : g.isOpen t := List.all_eq_true.2 fun d hd => hknown d (nested.1 d hd)
      have hnone : (g.add o t).errors = [] :=
        List.prefix_nil.1 (hclean ▸ errors_prefix_foldl o rest (g.add o t))
      have hfirst := holds_add hopen hnone
      have hothers : ∀ u ∈ rest, t.decl.id ≠ u.decl.id := fun u hu heq =>
        hids.1 (heq ▸ List.mem_map_of_mem hu)
      rcases List.mem_cons.1 hs with rfl | hs
      · exact hfirst.mono (keeps_foldl o rest _) (declared_foldl hothers _)
      · refine ih nested.2 hids.2 (fun d hd => ?_) hclean s hs
        by_cases hsame : d.id = t.decl.id
        · rw [Assoc.contains, hsame, hfirst.declared]
          rfl
        · rw [Assoc.contains, declared_add g o t hsame]
          rcases List.mem_cons.1 hd with rfl | hd
          · exact absurd rfl hsame
          · exact hknown d hd

theorem keeps_addTree (g : Registration) (t : SourceTree) :
    Keeps g.registry (g.addTree t).registry :=
  (keeps_addSpaces g.registry t).trans
    (keeps_foldl t.origin t.sites { g with registry := addSpaces g.registry t })

theorem keeps_trees (trees : List SourceTree) (g : Registration) :
    Keeps g.registry (trees.foldl addTree g).registry := by
  induction trees generalizing g with
  | nil => exact .refl _
  | cons t rest ih => exact (keeps_addTree g t).trans (ih _)

theorem declared_trees {trees : List SourceTree} {id : DeclId}
    (h : ∀ t ∈ trees, ∀ s ∈ t.sites, id ≠ s.decl.id) (g : Registration) :
    (trees.foldl addTree g).declared.get? id = g.declared.get? id := by
  induction trees generalizing g with
  | nil => rfl
  | cons t rest ih =>
      rw [List.foldl_cons, ih fun u hu => h u (List.mem_cons_of_mem _ hu)]
      exact declared_foldl (h t List.mem_cons_self) _

theorem errors_prefix_trees (trees : List SourceTree) (g : Registration) :
    g.errors <+: (trees.foldl addTree g).errors := by
  induction trees generalizing g with
  | nil => exact List.prefix_refl _
  | cons t rest ih =>
      exact (errors_prefix_foldl t.origin t.sites
        { g with registry := addSpaces g.registry t }).trans (ih (g.addTree t))

/-- If there is no error, all declarations are registered. -/
theorem holds_of_errors {trees : List SourceTree}
    (hids : (trees.flatMap fun t => t.sites.map (·.decl.id)).Nodup)
    (hclean : (ofTrees trees).errors = []) :
    ∀ t ∈ trees, ∀ s ∈ t.sites, (ofTrees trees).Holds t.origin s := by
  unfold ofTrees at hclean ⊢
  generalize empty = g at hclean ⊢
  induction trees generalizing g with
  | nil => simp
  | cons u rest ih =>
      rw [List.flatMap_cons, List.nodup_append] at hids
      obtain ⟨hown, hrest, hapart⟩ := hids
      intro t ht s hs
      rcases List.mem_cons.1 ht with rfl | ht
      · have hfirst : (g.addTree t).errors = [] :=
          List.prefix_nil.1 (hclean ▸ errors_prefix_trees rest (g.addTree t))
        have hholds : (g.addTree t).Holds t.origin s :=
          holds_foldl t.nested_sites hown (by simp) hfirst s hs
        refine hholds.mono (keeps_trees rest _) (declared_trees (fun v hv w hw => ?_) (g.addTree t))
        exact hapart _ (List.mem_map_of_mem hs) _
          (List.mem_flatMap.2 ⟨v, hv, List.mem_map_of_mem hw⟩)
      · exact ih hrest _ hclean t ht s hs

end Registration

/-! ### Namespaces of types -/

namespace NamespaceTree

variable {t : NamespaceTree}

/-- What links a tree has it keeps. -/
def Within (t u : NamespaceTree) : Prop := t.links <+: u.links

theorem child?_within {u : NamespaceTree} (h : t.Within u) {parent child : NamespaceId}
    {name : String} (hchild : t.child? parent name = some child) : u.child? parent name = some child := by
  obtain ⟨more, hmore⟩ := h
  obtain ⟨n, hn, rfl⟩ := Option.map_eq_some_iff.1 hchild
  rw [child?, ← hmore]
  have hlinks : (t.links ++ more).idxOf? (parent, name) = some n := by
    rw [List.idxOf?, List.findIdx?_append, Option.or_eq_some_iff]
    exact .inl hn
  rw [hlinks]
  rfl

theorem descend?_within {u : NamespaceTree} (h : t.Within u) {path : List String} :
    ∀ {start node : NamespaceId}, t.descend? start path = some node → u.descend? start path = some node := by
  induction path with
  | nil => exact fun hnode => hnode
  | cons name rest ih =>
      intro start node hnode
      obtain ⟨child, hchild, hrest⟩ := Option.bind_eq_some_iff.1 hnode
      exact Option.bind_eq_some_iff.2 ⟨child, child?_within h hchild, ih hrest⟩

theorem within_register (t : NamespaceTree) (home : NamespaceId) (name : String) (key : TypeKey) :
    t.Within (t.register home name key) := List.prefix_refl _

theorem createChild_spec (t : NamespaceTree) (parent : NamespaceId) (name : String) :
    t.Within (t.createChild parent name).2 ∧
      (t.createChild parent name).2.child? parent name = some (t.createChild parent name).1 := by
  unfold createChild
  cases hchild : t.child? parent name with
  | some child => exact ⟨List.prefix_refl _, hchild⟩
  | none =>
      refine ⟨List.prefix_append _ _, ?_⟩
      have hnone : t.links.idxOf? (parent, name) = none := Option.map_eq_none_iff.1 hchild
      have hlast : (t.links ++ [(parent, name)]).idxOf? (parent, name) = some t.links.length := by
        rw [List.idxOf?, List.findIdx?_append, ← List.idxOf?, hnone]
        simp
      rw [child?, hlast]
      rfl

/-- A path that is created is there. -/
theorem createFrom_spec (path : List String) :
    ∀ (t : NamespaceTree) (start : NamespaceId), t.Within (t.createFrom start path).2 ∧
      (t.createFrom start path).2.descend? start path = some (t.createFrom start path).1 := by
  induction path with
  | nil => exact fun t start => ⟨List.prefix_refl _, rfl⟩
  | cons name rest ih =>
      intro t start
      obtain ⟨hwithin, hchild⟩ := createChild_spec t start name
      obtain ⟨hwithin', hrest⟩ := ih (t.createChild start name).2 (t.createChild start name).1
      refine ⟨hwithin.trans hwithin', ?_⟩
      exact Option.bind_eq_some_iff.2 ⟨_, child?_within hwithin' hchild, hrest⟩

/-- A path that is there is not created again. -/
theorem createFrom_of_descend? {path : List String} :
    ∀ {start node : NamespaceId}, t.descend? start path = some node →
      t.createFrom start path = (node, t) := by
  induction path with
  | nil =>
      intro start node h
      cases h
      rfl
  | cons name rest ih =>
      intro start node h
      obtain ⟨child, hchild, hrest⟩ := Option.bind_eq_some_iff.1 h
      rw [createFrom, createChild, hchild]
      exact ih hrest

end NamespaceTree

namespace Registry

/-- The namespace of every type that is nested in none is there. -/
def Housed (r : Registry) : Prop :=
  ∀ key e, r.get? key = some e → e.container? = none → (r.spaces.find? e.space).isSome

namespace Housed

variable {r r' : Registry}

theorem createSpace (h : r.Housed) (path : List String) : (r.createSpace path).Housed := by
  intro key e he hnone
  obtain ⟨node, hnode⟩ := Option.isSome_iff_exists.1 (h key e he hnone)
  have hwithin := (NamespaceTree.createFrom_spec path r.spaces NamespaceTree.root).1
  exact Option.isSome_iff_exists.2 ⟨node, NamespaceTree.descend?_within hwithin hnode⟩

theorem modify (h : r.Housed) (key : TypeKey) {f : TypeEntry → TypeEntry}
    (hf : ∀ e, (f e).bare = e.bare) : (r.modify key f).Housed := by
  have hspaces : (r.modify key f).spaces = r.spaces := by
    unfold Registry.modify
    split <;> rfl
  intro k e he hnone
  rw [hspaces]
  rw [get?_modify] at he
  split at he
  · obtain ⟨old, hold, rfl⟩ := Option.map_eq_some_iff.1 he
    have hspace := congrArg TypeEntry.space (hf old)
    rw [show (f old).space = old.space from hspace]
    exact h key old hold ((congrArg TypeEntry.container? (hf old)).symm.trans hnone)
  · exact h k e he hnone

theorem register (h : r.Housed) {e : TypeEntry} (hregister : r.register e = .ok r') : r'.Housed := by
  obtain ⟨-, -, hget⟩ := register_eq_ok hregister
  have hspaces : (e.container? ≠ none ∧ r'.spaces = r.spaces) ∨
      (r.spaces.Within r'.spaces ∧ (r'.spaces.find? e.space).isSome) := by
    unfold Registry.register at hregister
    split at hregister
    · cases hregister
    · split at hregister
      · rename_i c hc
        split at hregister
        · cases hregister
        · cases hregister
          exact .inl ⟨by simp [hc], rfl⟩
      · cases hregister
        obtain ⟨hwithin, hfound⟩ := NamespaceTree.createFrom_spec e.space r.spaces NamespaceTree.root
        have hregister := NamespaceTree.descend?_within (NamespaceTree.within_register _
          (r.spaces.createFrom NamespaceTree.root e.space).1 e.name e.key) hfound
        exact .inr ⟨hwithin, Option.isSome_iff_exists.2 ⟨_, hregister⟩⟩
  intro key old hold hnone
  rw [hget] at hold
  rcases hspaces with ⟨hcontainer, heq⟩ | ⟨hwithin, hfound⟩
  · rw [heq]
    split at hold
    · cases hold
      exact absurd hnone hcontainer
    · exact h key old hold hnone
  · split at hold
    · cases hold
      exact hfound
    · obtain ⟨node, hnode⟩ := Option.isSome_iff_exists.1 (h key old hold hnone)
      exact Option.isSome_iff_exists.2 ⟨node, NamespaceTree.descend?_within hwithin hnode⟩

end Housed

end Registry

namespace Compilation

variable {documents : List Document} {c : Compilation}

/-- Documents are read one by one, each with its own number. -/
theorem readFrom_eq_ok {index : Nat} {trees : List SourceTree}
    (h : readFrom index documents = .ok trees) :
    (∀ t ∈ trees, index ≤ t.id.index ∧ t.id.index < index + documents.length ∧
        ∃ d ∈ documents, SourceTree.parse t.id d = .ok t ∧ t.origin = d.origin) ∧
      (trees.map (·.id)).Nodup := by
  induction documents generalizing index trees with
  | nil =>
      cases h
      simp
  | cons d rest ih =>
      unfold readFrom at h
      cases htree : SourceTree.parse ⟨index⟩ d with
      | error e =>
          rw [htree] at h
          cases h
      | ok tree =>
          rw [htree] at h
          cases hrest : readFrom (index + 1) rest with
          | error e =>
              rw [hrest] at h
              cases h
          | ok list =>
              rw [hrest] at h
              cases h
              obtain ⟨hlist, hnodup⟩ := ih hrest
              obtain ⟨hid, horigin⟩ : tree.id = ⟨index⟩ ∧ tree.origin = d.origin := by
                unfold SourceTree.parse at htree
                cases hfile : SourceFile.parse ⟨index⟩ d.text with
                | error e =>
                    rw [hfile] at htree
                    cases htree
                | ok file =>
                    rw [hfile] at htree
                    cases htree
                    exact ⟨rfl, rfl⟩
              constructor
              · intro t ht
                rcases List.mem_cons.1 ht with rfl | ht
                · refine ⟨by rw [hid], by rw [hid]; simp, d, List.mem_cons_self, ?_, horigin⟩
                  rw [hid]
                  exact htree
                · obtain ⟨hlow, hhigh, d', hd', hparse⟩ := hlist t ht
                  refine ⟨by omega, ?_, d', List.mem_cons_of_mem _ hd', hparse⟩
                  rw [List.length_cons]
                  omega
              · rw [List.map_cons, List.nodup_cons]
                refine ⟨fun hmem => ?_, hnodup⟩
                obtain ⟨t, ht, heq⟩ := List.mem_map.1 hmem
                have hlow := (hlist t ht).1
                rw [heq, hid] at hlow
                exact Nat.not_succ_le_self index hlow

/-- The declarations of trees with different numbers have different numbers. -/
theorem nodup_ids {trees : List SourceTree} (hparse : ∀ t ∈ trees, ∃ d, SourceTree.parse t.id d = .ok t)
    (hnodup : (trees.map (·.id)).Nodup) : (trees.flatMap fun t => t.sites.map (·.decl.id)).Nodup := by
  induction trees with
  | nil => exact List.nodup_nil
  | cons t rest ih =>
      rw [List.map_cons, List.nodup_cons] at hnodup
      obtain ⟨d, hd⟩ := hparse t List.mem_cons_self
      rw [List.flatMap_cons, List.nodup_append]
      refine ⟨(SourceTree.ids_sites hd).2.1,
        ih (fun u hu => hparse u (List.mem_cons_of_mem _ hu)) hnodup.2, ?_⟩
      rintro id hid other hother rfl
      obtain ⟨s, hs, rfl⟩ := List.mem_map.1 hid
      obtain ⟨u, hu, hother⟩ := List.mem_flatMap.1 hother
      obtain ⟨s', hs', heq⟩ := List.mem_map.1 hother
      obtain ⟨d', hd'⟩ := hparse u (List.mem_cons_of_mem _ hu)
      have hsame : t.id = u.id := by
        rw [← (SourceTree.ids_sites hd).2.2 s hs, ← (SourceTree.ids_sites hd').2.2 s' hs', heq]
      exact hnodup.1 (hsame ▸ List.mem_map_of_mem hu)

variable (built : build documents = .ok c)
include built

/-- The declarations of a compilation have different numbers. -/
theorem nodup_ids_of_build : (c.trees.flatMap fun t => t.sites.map (·.decl.id)).Nodup := by
  obtain ⟨htrees, hnodup⟩ := readFrom_eq_ok (build_eq_ok built).1
  refine nodup_ids (fun t ht => ?_) hnodup
  obtain ⟨-, -, d, -, hparse, -⟩ := htrees t ht
  exact ⟨d, hparse⟩

/-- All declarations of a compilation are registered. -/
theorem holds_of_build : ∀ t ∈ c.trees, ∀ s ∈ t.sites,
    (Registration.ofTrees c.trees).Holds t.origin s :=
  Registration.holds_of_errors (nodup_ids_of_build built) (build_eq_ok built).2.1

/-- The type that a declaration of a tree is part of is its own, and of the origin of the tree. -/
theorem key_of_declared {t : SourceTree} (ht : t ∈ c.trees) {d : TypeDecl}
    (hd : d ∈ t.file.typeDecls) {key : TypeKey} (hkey : c.declaredType? d.id = some key) :
    ∃ s ∈ t.sites, s.decl = d ∧ s.key = key := by
  rw [← SourceTree.map_decl_sites] at hd
  obtain ⟨s, hs, rfl⟩ := List.mem_map.1 hd
  have hdeclared := (holds_of_build built t ht s hs).declared
  rw [declaredType?, (build_eq_ok built).2.2.2, hdeclared] at hkey
  exact ⟨s, hs, rfl, Option.some.inj hkey⟩

end Compilation

end Graft
