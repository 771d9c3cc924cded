/-
Module: Graft.Proofs.Program.Extension
Purpose: Programs with further parts of their types.
Main exports: Registration.Continues, SourceTree.Continues, Registration.grows_of_continues,
  SourceTree.Adds, Compilation.build_append

More trees are read after those of a program.  If they only go on with partial types of the program,
and declare nothing but properties and types that it has, then all that the program says of its types
stays as it is, and the properties come after the members that were there.
-/
import Mathlib.Data.List.Forall2
import Graft.Proofs.Constant.Congruence
import Graft.Proofs.Program.Complete
import Graft.Proofs.Program.Members

namespace Graft

namespace Registration

variable {g g' g'' : Registration} {o : Origin} {s : DeclSite}

/-! ### Further parts -/

/-- A declaration goes on with a registered type: it stands where the type is declared, and both are
partial. -/
structure Continues (g : Registration) (o : Origin) (s : DeclSite) : Prop where
  entry : ∃ e, g.registry.get? s.key = some e ∧ e.bare = (s.newEntry o).bare ∧ e.modifiers.isPartial
  part : s.decl.modifiers.isPartial

/-- Only parts are added to the types that are there. -/
structure Grows (g g' : Registration) : Prop where
  errors : g'.errors = g.errors
  alike : g.registry.Alike g'.registry
  keeps : Keeps g.registry g'.registry
  members : ∀ key, (g.registry.get? key).map (·.members) = (g'.registry.get? key).map (·.members)

namespace Grows

theorem refl (g : Registration) : Grows g g := ⟨rfl, .refl _, .refl _, fun _ => rfl⟩

theorem trans (h : Grows g g') (h' : Grows g' g'') : Grows g g'' :=
  ⟨h'.errors.trans h.errors, h.alike.trans h'.alike, h.keeps.trans h'.keeps,
    fun key => (h.members key).trans (h'.members key)⟩

/-- A declaration that goes on with a type does so later as well. -/
theorem continues (h : Grows g g') (hs : g.Continues o s) : g'.Continues o s := by
  obtain ⟨⟨e, he, hbare, hpartial⟩, hpart⟩ := hs
  obtain ⟨e', he', -, -, hpartial'⟩ := h.keeps.entry _ e he
  have halike := h.alike.bare s.key
  rw [he, he'] at halike
  exact ⟨⟨e', he', (Option.some.inj halike).symm.trans hbare, hpartial' hpartial⟩, hpart⟩

end Grows

theorem add_of_continues (hs : g.Continues o s) (hopen : g.isOpen s) :
    g.add o s = { g with
      registry := g.registry.modify s.key (·.withPart s.decl)
      declared := g.declared.insert s.decl.id s.key } := by
  obtain ⟨⟨e, he, hbare, hpartial⟩, hpart⟩ := hs
  have hkind : e.kind = s.decl.kind := congrArg TypeEntry.kind hbare
  have horigin : e.origin = o := congrArg TypeEntry.origin hbare
  have hplace : place g.registry o s = .ok (g.registry.modify s.key (·.withPart s.decl)) := by
    rw [place, he]
    simp only [TypeEntry.continuedBy, hpartial, hpart, hkind, horigin, decide_true, Bool.and_self,
      if_true]
  rw [add, if_pos hopen, hplace]

theorem grows_add (hs : g.Continues o s) (hopen : g.isOpen s) : Grows g (g.add o s) := by
  rw [add_of_continues hs hopen]
  refine ⟨rfl, (Registry.Alike.modify _ _ fun e => e.bare_withPart s.decl).symm,
    .withPart _ _ _, fun key => ?_⟩
  rw [Registry.get?_modify]
  split
  · rename_i hkey
    rw [hkey, Option.map_map]
    rfl
  · rfl

theorem grows_foldl {sites : List DeclSite} {known : List TypeDecl}
    (nested : DeclSite.Nested known sites) :
    ∀ {g : Registration}, (∀ d ∈ known, g.declared.contains d.id) →
      (∀ s ∈ sites, g.Continues o s) → Grows g (sites.foldl (fun g s => g.add o s) g) := by
  induction sites generalizing known with
  | nil => exact fun _ _ => .refl _
  | cons s rest ih =>
      intro g hknown hsites
      have hs := hsites s List.mem_cons_self
      have hopen : g.isOpen s := List.all_eq_true.2 fun d hd => hknown d (nested.1 d hd)
      have hgrows := grows_add hs hopen
      refine hgrows.trans (ih nested.2 (fun d hd => ?_) fun t ht =>
        hgrows.continues (hsites t (List.mem_cons_of_mem _ ht)))
      rw [add_of_continues hs hopen, Assoc.contains, Assoc.get?_insert]
      split
      · rfl
      · rename_i hne
        rcases List.mem_cons.1 hd with rfl | hd
        · exact absurd rfl hne
        · exact hknown d hd

end Registration

/-- All declarations of a tree go on with registered types, and its namespaces are there. -/
structure SourceTree.Continues (g : Registration) (t : SourceTree) : Prop where
  sites : ∀ s ∈ t.sites, g.Continues t.origin s
  spaces : ∀ chain ∈ t.chains, (g.registry.spaces.find? (chain.flatMap (·.path))).isSome

namespace Registration

variable {g : Registration}

theorem addSpaces_of_continues {t : SourceTree} (h : t.Continues g) :
    addSpaces g.registry t = g.registry := by
  have hspaces := h.spaces
  unfold addSpaces
  generalize t.chains = chains at hspaces ⊢
  induction chains with
  | nil => rfl
  | cons chain rest ih =>
      obtain ⟨node, hnode⟩ := Option.isSome_iff_exists.1 (hspaces chain List.mem_cons_self)
      have hsame : g.registry.createSpace (chain.flatMap (·.path)) = g.registry := by
        rw [Registry.createSpace, NamespaceTree.createPath,
          NamespaceTree.createFrom_of_descend? hnode]
      rw [List.foldl_cons, hsame]
      exact ih fun other hother => hspaces other (List.mem_cons_of_mem _ hother)

theorem grows_addTree {t : SourceTree} (h : t.Continues g) : Grows g (g.addTree t) := by
  unfold addTree
  rw [addSpaces_of_continues h]
  exact grows_foldl t.nested_sites (by simp) h.sites

/-- Trees that go on with the types of a program change nothing else. -/
theorem grows_of_continues {trees more : List SourceTree}
    (h : ∀ t ∈ more, t.Continues (ofTrees trees)) : Grows (ofTrees trees) (ofTrees (trees ++ more)) := by
  unfold ofTrees at h ⊢
  rw [List.foldl_append]
  generalize trees.foldl addTree empty = g at h ⊢
  induction more generalizing g with
  | nil => exact .refl g
  | cons t rest ih =>
      have hgrows := grows_addTree (h t List.mem_cons_self)
      refine hgrows.trans (ih _ fun u hu => ?_)
      obtain ⟨hsites, hspaces⟩ := h u (List.mem_cons_of_mem _ hu)
      refine ⟨fun s hs => hgrows.continues (hsites s hs), fun chain hchain => ?_⟩
      rw [← hgrows.alike.spaces]
      exact hspaces chain hchain

end Registration

/-! ### Members that come to others -/

namespace MemberEntry

/-- The key of the type that a member is. -/
def nestedKey? : MemberEntry → Option TypeKey
  | nestedType _ key => some key
  | _ => none

theorem any_isRepeatedBy_nestedType {members : List MemberEntry} {name : String} {key : TypeKey} :
    members.any (isRepeatedBy (.nestedType name key)) = true ↔ key ∈ members.filterMap nestedKey? := by
  rw [List.any_eq_true, List.mem_filterMap]
  refine exists_congr fun m => and_congr_right fun _ => ?_
  cases m <;> simp [isRepeatedBy, nestedKey?]

/-- Nested types stay, and one that is added is there. -/
theorem mem_nestedKeys_addTo (members : List MemberEntry) (m : MemberEntry) (key : TypeKey)
    (h : key ∈ members.filterMap nestedKey? ∨ m.nestedKey? = some key) :
    key ∈ (addTo members m).filterMap nestedKey? := by
  have happend : key ∈ (members ++ [m]).filterMap nestedKey? := by
    rw [List.filterMap_append, List.mem_append]
    refine h.imp_right fun hm => ?_
    rw [List.filterMap_cons, hm]
    exact List.mem_cons_self
  unfold addTo
  split
  · rename_i p
    split
    · cases hreplace : replaceFirst? (isPartialProperty p.name) (withParts p) members with
      | none => exact happend
      | some replaced =>
          refine (filterMap_replaceFirst? nestedKey? (fun m => ?_) hreplace).symm ▸ h.resolve_right
            (by simp [nestedKey?])
          cases m <;> rfl
    · exact happend
  · split
    · rename_i hrepeated
      refine h.elim id fun hm => ?_
      cases m with
      | nestedType name other =>
          obtain rfl := Option.some.inj hm
          exact any_isRepeatedBy_nestedType.1 hrepeated
      | property _ | field _ | method _ | event _ => cases hm
    · exact happend

theorem mem_nestedKeys_foldl {list members : List MemberEntry} {key : TypeKey}
    (h : key ∈ members.filterMap nestedKey? ∨ ∃ m ∈ list, m.nestedKey? = some key) :
    key ∈ (list.foldl addTo members).filterMap nestedKey? := by
  induction list generalizing members with
  | nil => exact h.elim id fun ⟨_, hm, _⟩ => (List.not_mem_nil hm).elim
  | cons m rest ih =>
      refine ih ?_
      rcases h with h | ⟨m', hm', hkey⟩
      · exact .inl (mem_nestedKeys_addTo members m key (.inl h))
      · rcases List.mem_cons.1 hm' with rfl | hm'
        · exact .inl (mem_nestedKeys_addTo members m' key (.inr hkey))
        · exact .inr ⟨m', hm', hkey⟩

/-- A member that is a property by itself, or a nested type that is there. -/
def JoinsPlainly (members : List MemberEntry) (m : MemberEntry) : Prop :=
  (∃ p, m = .property p ∧ p.modifiers.isPartial = false) ∨
    ∃ name key, m = .nestedType name key ∧ key ∈ members.filterMap nestedKey?

/-- Of such members the properties come after those that were there. -/
theorem foldl_addTo_of_joinsPlainly {list members : List MemberEntry}
    (h : ∀ m ∈ list, JoinsPlainly members m) :
    list.foldl addTo members = members ++ list.filter (·.property?.isSome) := by
  induction list generalizing members with
  | nil => simp
  | cons m rest ih =>
      have hrest : ∀ m' ∈ rest, JoinsPlainly (addTo members m) m' := fun m' hm' =>
        (h m' (List.mem_cons_of_mem _ hm')).imp_right fun ⟨name, key, heq, hkey⟩ =>
          ⟨name, key, heq, mem_nestedKeys_addTo members m key (.inl hkey)⟩
      rw [List.foldl_cons, ih hrest]
      rcases h m List.mem_cons_self with ⟨p, rfl, hpartial⟩ | ⟨name, key, rfl, hkey⟩
      · simp [addTo, hpartial, property?]
      · have hrepeated : members.any (isRepeatedBy (.nestedType name key)) = true :=
          any_isRepeatedBy_nestedType.2 hkey
        simp [addTo, hrepeated, property?]

end MemberEntry

/-! ### Bodies -/

namespace Registration

/-- The body of a declaration that is registered under its own key. -/
def bodyOf (f : FileScopes) (t : SourceTree) (s : DeclSite) : DeclBody :=
  ⟨t, s.decl, s.key, f.inType (f.atTop t) s⟩

theorem bodiesIn_eq {g : Registration} {t : SourceTree}
    (holds : ∀ s ∈ t.sites, g.declared.get? s.decl.id = some s.key) (f : FileScopes) :
    g.bodiesIn f t = t.sites.map (bodyOf f t) := by
  unfold bodiesIn
  rw [← List.filterMap_eq_map]
  refine List.filterMap_congr fun s hs => ?_
  rw [holds s hs]
  rfl

end Registration

/-- A tree declares only properties that are no parts of others, and types. -/
structure SourceTree.Adds (t : SourceTree) : Prop where
  usings : ∀ u ∈ t.file.usings, u.isGlobal = false
  members : ∀ s ∈ t.sites, ∀ m ∈ s.decl.members,
    (∃ p : PropertyDecl, m = .property p ∧ p.modifiers.isPartial = false) ∨ ∃ d, m = .type d

/-- The property that a member declaration declares. -/
def MemberDecl.property? : MemberDecl → Option PropertyDecl
  | .property p => some p
  | _ => none

/-- The properties that a tree declares in types with a key. -/
def SourceTree.propertiesIn (t : SourceTree) (key : TypeKey) : List PropertyDecl :=
  (t.sites.filter (·.key = key)).flatMap fun s => s.decl.members.filterMap MemberDecl.property?

/-- What is no property declares none. -/
theorem DeclBody.filter_membersOf_eq_nil (b : DeclBody) (r : Registry)
    (declared : Assoc DeclId TypeKey) {decl : MemberDecl} (h : decl.property? = none) :
    (b.membersOf r declared decl).filter (·.property?.isSome) = [] := by
  refine List.filter_eq_nil_iff.2 fun m hm => ?_
  cases decl with
  | property p => cases h
  | field d =>
      obtain ⟨v, -, rfl⟩ := List.mem_map.1 hm
      exact Bool.false_ne_true
  | method d =>
      rw [List.mem_singleton.1 hm]
      exact Bool.false_ne_true
  | event d =>
      obtain ⟨name, -, rfl⟩ := List.mem_map.1 hm
      exact Bool.false_ne_true
  | type d =>
      obtain ⟨key, -, rfl⟩ := Option.map_eq_some_iff.1 (Option.mem_toList.1 hm)
      exact Bool.false_ne_true
  | other _ => cases hm

/-- The scope of an initializer is that of one of the bodies. -/
theorem Registration.scope_lt_of_get? {bodies : List DeclBody} {id : FieldId} {init : Initializer}
    (h : (initializers bodies).get? id = some init) : init.scope < bodies.length := by
  have hmem : ∀ (list : List (FieldId × Initializer)) (m : Assoc FieldId Initializer),
      (list.foldl (fun m entry => m.insert entry.1 entry.2) m).get? id = some init →
        m.get? id = some init ∨ (id, init) ∈ list := by
    intro list
    induction list with
    | nil => exact fun m hm => .inl hm
    | cons entry rest ih =>
        intro m hm
        rcases ih _ hm with hm | hm
        · rw [Assoc.get?_insert] at hm
          split at hm
          · rename_i hid
            cases hm
            exact .inr (hid ▸ List.mem_cons_self)
          · exact .inl hm
        · exact .inr (List.mem_cons_of_mem _ hm)
  rcases hmem _ _ h with hnone | hinit
  · cases hnone
  · obtain ⟨⟨b, scope⟩, hb, hinit⟩ := List.mem_flatMap.1 hinit
    obtain ⟨decl, -, hinit⟩ := List.mem_flatMap.1 hinit
    have hscope : init.scope = scope := by
      cases decl with
      | field d =>
          unfold DeclBody.initializersOf at hinit
          dsimp only at hinit
          split at hinit
          · obtain ⟨v, -, hv⟩ := List.mem_filterMap.1 hinit
            obtain ⟨expr, -, heq⟩ := Option.map_eq_some_iff.1 hv
            cases heq
            rfl
          · cases hinit
      | property _ | method _ | event _ | type _ | other _ => cases hinit
    rw [hscope]
    simpa using (List.mem_zipIdx hb).2.1

/-- The program of some trees, and the same with more of them. -/
structure Extension (trees more : List SourceTree) : Prop where
  clean : (Registration.ofTrees trees).errors = []
  ids : ((trees ++ more).flatMap fun t => t.sites.map (·.decl.id)).Nodup
  continues : ∀ t ∈ more, t.Continues (.ofTrees trees)
  adds : ∀ t ∈ more, t.Adds

namespace Extension

variable {trees more : List SourceTree} (ext : Extension trees more)

section

include ext

theorem grows : Registration.Grows (.ofTrees trees) (.ofTrees (trees ++ more)) :=
  Registration.grows_of_continues ext.continues

theorem errors : (Registration.ofTrees (trees ++ more)).errors = [] := ext.grows.errors.trans ext.clean

theorem holds : ∀ t ∈ trees, ∀ s ∈ t.sites, (Registration.ofTrees trees).Holds t.origin s := by
  refine Registration.holds_of_errors ?_ ext.clean
  have hids := ext.ids
  rw [List.flatMap_append, List.nodup_append] at hids
  exact hids.1

theorem holds_append : ∀ t ∈ trees ++ more, ∀ s ∈ t.sites,
    (Registration.ofTrees (trees ++ more)).Holds t.origin s :=
  Registration.holds_of_errors ext.ids ext.errors

end

variable (trees more) in
/-- What is visible in the files of the program with more trees. -/
def scopes : FileScopes := .ofTrees (Registration.ofTrees (trees ++ more)).registry (trees ++ more)

variable (trees) in
/-- The bodies of the program. -/
def bodies : List DeclBody := (Registration.ofTrees trees).bodies trees

variable (trees more) in
/-- The bodies that come with more trees. -/
def newBodies : List DeclBody :=
  more.flatMap fun t => t.sites.map (Registration.bodyOf (scopes trees more) t)

include ext

theorem shared : (scopes trees more).shared =
    (FileScopes.ofTrees (Registration.ofTrees trees).registry trees).shared := by
  have hnone : (more.flatMap (·.file.usings)).filter (·.isGlobal) = [] := by
    refine List.filter_eq_nil_iff.2 fun u hu => ?_
    obtain ⟨t, ht, hu⟩ := List.mem_flatMap.1 hu
    rw [(ext.adds t ht).usings u hu]
    exact Bool.false_ne_true
  unfold scopes FileScopes.ofTrees
  dsimp only
  rw [List.flatMap_append, List.filter_append, hnone, List.append_nil, ext.grows.alike.ofUsings]

/-- The bodies that were there stay as they are. -/
theorem bodies_append :
    (Registration.ofTrees (trees ++ more)).bodies (trees ++ more) =
      bodies trees ++ newBodies trees more := by
  unfold Registration.bodies bodies newBodies
  rw [List.flatMap_append]
  congr 1
  · refine List.flatMap_congr fun t ht => ?_
    rw [Registration.bodiesIn_eq fun s hs =>
        (ext.holds_append t (List.mem_append_left _ ht) s hs).declared,
      Registration.bodiesIn_eq fun s hs => (ext.holds t ht s hs).declared]
    have hscope := ext.grows.alike.symm.inType (f := scopes trees more) rfl
      (show (FileScopes.ofTrees (Registration.ofTrees trees).registry trees).registry = _ from rfl)
      ext.shared t
    refine List.map_congr_left fun s _ => ?_
    unfold Registration.bodyOf
    exact congrArg _ (congrFun hscope s)
  · refine List.flatMap_congr fun t ht => ?_
    exact Registration.bodiesIn_eq (fun s hs =>
      (ext.holds_append t (List.mem_append_right _ ht) s hs).declared) _

theorem mem_bodies {t : SourceTree} (ht : t ∈ trees) {s : DeclSite} (hs : s ∈ t.sites) :
    Registration.bodyOf (.ofTrees (Registration.ofTrees trees).registry trees) t s ∈ bodies trees := by
  unfold bodies Registration.bodies
  rw [List.mem_flatMap]
  refine ⟨t, ht, ?_⟩
  rw [Registration.bodiesIn_eq fun s hs => (ext.holds t ht s hs).declared]
  exact List.mem_map_of_mem hs

theorem exists_of_mem_bodies {b : DeclBody} (hb : b ∈ bodies trees) :
    ∃ t ∈ trees, ∃ s ∈ t.sites,
      b = Registration.bodyOf (.ofTrees (Registration.ofTrees trees).registry trees) t s := by
  unfold bodies Registration.bodies at hb
  obtain ⟨t, ht, hb⟩ := List.mem_flatMap.1 hb
  rw [Registration.bodiesIn_eq fun s hs => (ext.holds t ht s hs).declared] at hb
  obtain ⟨s, hs, rfl⟩ := List.mem_map.1 hb
  exact ⟨t, ht, s, hs, rfl⟩

/-! ### Members -/

/-- The bodies that were there declare what they declared. -/
theorem members_eq {b : DeclBody} (hb : b ∈ bodies trees) :
    b.members (Registration.ofTrees (trees ++ more)).registry
        (Registration.ofTrees (trees ++ more)).declared =
      b.members (Registration.ofTrees trees).registry (Registration.ofTrees trees).declared := by
  obtain ⟨t, ht, s, hs, rfl⟩ := ext.exists_of_mem_bodies hb
  have halike := ext.grows.alike.symm
  refine List.flatMap_congr fun m hm => ?_
  cases m with
  | field d | property d => simp only [DeclBody.membersOf, halike.resolve]
  | method _ | event _ | other _ => rfl
  | type d =>
      have hchild := SourceTree.mem_sites_child hs hm
      simp only [DeclBody.membersOf]
      rw [show (Registration.ofTrees (trees ++ more)).declared.get? d.id = _ from
          (ext.holds_append t (List.mem_append_left _ ht) _ hchild).declared,
        show (Registration.ofTrees trees).declared.get? d.id = _ from (ext.holds t ht _ hchild).declared]

theorem declaredIn_append (key : TypeKey) :
    (Registration.ofTrees (trees ++ more)).declaredIn
        ((Registration.ofTrees (trees ++ more)).bodies (trees ++ more)) key =
      (Registration.ofTrees trees).declaredIn (bodies trees) key ++
        (Registration.ofTrees (trees ++ more)).declaredIn (newBodies trees more) key := by
  rw [ext.bodies_append, Registration.declaredIn, List.filter_append, List.flatMap_append]
  congr 1
  exact List.flatMap_congr fun b hb => ext.members_eq (List.mem_filter.1 hb).1

/-- A type that is held by another one is among the members of that one. -/
theorem mem_nestedKeys {key : TypeKey} {e : TypeEntry}
    (he : (Registration.ofTrees trees).registry.get? key = some e) {container : TypeKey}
    (hcontainer : e.container? = some container) (members : List MemberEntry) :
    key ∈ (((Registration.ofTrees trees).declaredIn (bodies trees) container).foldl
      MemberEntry.addTo members).filterMap MemberEntry.nestedKey? := by
  obtain ⟨s, hs, rfl, declared⟩ := (Registration.from_ofTrees trees).declared key e he
  obtain ⟨t, ht, hs⟩ := List.mem_flatMap.1 hs
  rw [declared.container?] at hcontainer
  -- the declaration around `s` is one of the container, and its body declares `s`
  have hne : s.containers ≠ [] := by
    intro hnil
    rw [DeclSite.container?_eq, if_pos hnil] at hcontainer
    cases hcontainer
  have hsplit := List.dropLast_append_getLast hne
  obtain ⟨hparent, hdecl⟩ := SourceTree.mem_sites_parent hs hsplit.symm
  have hkey : DeclSite.key ⟨s.spaces, s.containers.dropLast, s.containers.getLast hne⟩ = container := by
    have hchild := DeclSite.container?_child
      ⟨s.spaces, s.containers.dropLast, s.containers.getLast hne⟩ s.decl
    dsimp only at hchild
    rw [hsplit] at hchild
    exact Option.some.inj (hchild.symm.trans hcontainer)
  refine MemberEntry.mem_nestedKeys_foldl (.inr ⟨.nestedType s.decl.name.name s.key, ?_, rfl⟩)
  refine List.mem_flatMap.2 ⟨_, List.mem_filter.2 ⟨ext.mem_bodies ht hparent, decide_eq_true hkey⟩, ?_⟩
  refine List.mem_flatMap.2 ⟨_, hdecl, ?_⟩
  simp only [DeclBody.membersOf, (ext.holds t ht s hs).declared]
  exact List.mem_singleton_self _

omit ext in
theorem exists_of_mem_newBodies {b : DeclBody} (hb : b ∈ newBodies trees more) :
    ∃ t ∈ more, ∃ s ∈ t.sites, b = Registration.bodyOf (scopes trees more) t s := by
  obtain ⟨t, ht, hb⟩ := List.mem_flatMap.1 hb
  obtain ⟨s, hs, rfl⟩ := List.mem_map.1 hb
  exact ⟨t, ht, s, hs, rfl⟩

/-- What more trees declare joins the members that were there plainly. -/
theorem joinsPlainly {key : TypeKey} {m : MemberEntry}
    (hnew : m ∈ (Registration.ofTrees (trees ++ more)).declaredIn (newBodies trees more) key)
    (members : List MemberEntry) :
    MemberEntry.JoinsPlainly (((Registration.ofTrees trees).declaredIn (bodies trees) key).foldl
      MemberEntry.addTo members) m := by
  obtain ⟨b, hb, hm⟩ := List.mem_flatMap.1 hnew
  obtain ⟨hb, howner⟩ := List.mem_filter.1 hb
  obtain ⟨t, ht, s, hs, rfl⟩ := exists_of_mem_newBodies hb
  obtain rfl : s.key = key := of_decide_eq_true howner
  obtain ⟨decl, hdecl, hdeclared⟩ := List.mem_flatMap.1 hm
  rcases (ext.adds t ht).members s hs decl hdecl with ⟨p, rfl, hpartial⟩ | ⟨d, rfl⟩
  · obtain rfl := List.mem_singleton.1 hdeclared
    exact .inl ⟨_, rfl, hpartial⟩
  · have hchild := SourceTree.mem_sites_child hs hdecl
    have hkey := (ext.holds_append t (List.mem_append_right _ ht) _ hchild).declared
    simp only [DeclBody.membersOf, hkey, Option.map_some, Option.toList_some,
      List.mem_singleton] at hdeclared
    subst hdeclared
    obtain ⟨e, he, hbare, -⟩ := ((ext.continues t ht).sites _ hchild).entry
    have hcontainer : e.container? = some s.key :=
      (congrArg TypeEntry.container? hbare).trans (DeclSite.container?_child s d)
    exact .inr ⟨_, _, rfl, ext.mem_nestedKeys he hcontainer members⟩

omit ext in
theorem forall₂_flatMap {α β γ : Type} {R : β → γ → Prop} {f : α → List β} {g : α → List γ}
    {list : List α} (h : ∀ a ∈ list, List.Forall₂ R (f a) (g a)) :
    List.Forall₂ R (list.flatMap f) (list.flatMap g) := by
  induction list with
  | nil => exact .nil
  | cons a rest ih =>
      exact List.rel_append (h a List.mem_cons_self) (ih fun b hb => h b (List.mem_cons_of_mem _ hb))

/-- A member is the property that a tree declares. -/
def IsProperty (x : SourceTree × PropertyDecl) (m : MemberEntry) : Prop :=
  ∃ p, m = .property p ∧ p.name = x.2.name.name ∧ p.parts = [x.1.part x.2]

omit ext in
/-- The properties that come with more trees. -/
theorem forall₂_newProperties (key : TypeKey) :
    List.Forall₂ IsProperty (more.flatMap fun t => (t.propertiesIn key).map (t, ·))
      (((Registration.ofTrees (trees ++ more)).declaredIn (newBodies trees more) key).filter
        (·.property?.isSome)) := by
  unfold Registration.declaredIn newBodies SourceTree.propertiesIn
  simp only [List.filter_flatMap, List.flatMap_assoc, List.map_flatMap, List.filter_map,
    List.flatMap_map]
  refine forall₂_flatMap fun t _ => forall₂_flatMap fun s _ => ?_
  unfold Registration.bodyOf DeclBody.members
  rw [List.filter_flatMap]
  dsimp only
  induction s.decl.members with
  | nil => exact .nil
  | cons decl rest ih =>
      rw [List.flatMap_cons]
      cases hdecl : decl.property? with
      | some p =>
          obtain rfl : decl = .property p := by
            cases decl <;> cases hdecl
            rfl
          exact .cons ⟨_, rfl, rfl, rfl⟩ ih
      | none =>
          rw [DeclBody.filter_membersOf_eq_nil _ _ _ hdecl, List.filterMap_cons_none hdecl]
          exact ih

/-! ### Constants and completed types -/

theorem members_withMembers (key : TypeKey) :
    (((Registration.ofTrees (trees ++ more)).withMembers
        ((Registration.ofTrees (trees ++ more)).bodies (trees ++ more))).get? key).map (·.members) =
      (((Registration.ofTrees trees).withMembers (bodies trees)).get? key).map (fun e => e.members ++
        ((Registration.ofTrees (trees ++ more)).declaredIn (newBodies trees more) key).filter
          (·.property?.isSome)) := by
  have hmembers := ext.grows.members key
  rw [Registration.get?_withMembers, Registration.get?_withMembers, ext.declaredIn_append]
  cases he : (Registration.ofTrees trees).registry.get? key with
  | none =>
      rw [he] at hmembers
      rw [Option.map_eq_none_iff.1 hmembers.symm]
      rfl
  | some e =>
      rw [he] at hmembers
      obtain ⟨e', he', hsame⟩ := Option.map_eq_some_iff.1 hmembers.symm
      dsimp only at hsame
      simp only [he', Option.map_some, List.foldl_append, hsame]
      rw [MemberEntry.foldl_addTo_of_joinsPlainly fun m hm => ext.joinsPlainly hm e.members]

theorem field? : ((Registration.ofTrees trees).withMembers (bodies trees)).field? =
    ((Registration.ofTrees (trees ++ more)).withMembers
      ((Registration.ofTrees (trees ++ more)).bodies (trees ++ more))).field? := by
  funext id
  have hfield : ∀ r : Registry, r.field? id = ((r.get? id.owner).map (·.members)).bind fun members =>
      (members.filter (·.name = id.name)).findSome? MemberEntry.field? := fun r => by
    rw [Option.bind_map]
    rfl
  rw [hfield, hfield, ext.members_withMembers, Option.bind_map, Option.bind_map]
  refine Option.bind_congr fun e _ => ?_
  dsimp only [Function.comp_apply]
  have hnone : ((((Registration.ofTrees (trees ++ more)).declaredIn (newBodies trees more)
      id.owner).filter (·.property?.isSome)).filter (·.name = id.name)).findSome?
        MemberEntry.field? = none := by
    refine List.findSome?_eq_none_iff.2 fun m hm => ?_
    obtain ⟨p, hp⟩ := Option.isSome_iff_exists.1 (List.mem_filter.1 (List.mem_filter.1 hm).1).2
    cases m with
    | property _ => rfl
    | field _ | method _ | event _ | nestedType _ _ => cases hp
  rw [List.filter_append, List.findSome?_append, hnone, Option.or_none]

theorem initializers_newBodies {b : DeclBody} (hb : b ∈ newBodies trees more) (scope : Nat) :
    b.initializers scope = [] := by
  obtain ⟨t, ht, s, hs, rfl⟩ := exists_of_mem_newBodies hb
  refine List.flatMap_eq_nil_iff.2 fun decl hdecl => ?_
  rcases (ext.adds t ht).members s hs decl hdecl with ⟨p, rfl, -⟩ | ⟨d, rfl⟩ <;> rfl

theorem initializers : Registration.initializers (bodies trees ++ newBodies trees more) =
    { Registration.initializers (bodies trees) with
      scopes := (bodies trees ++ newBodies trees more).map (·.scope) } := by
  have hnone : ((newBodies trees more).zipIdx (bodies trees).length).flatMap
      (fun entry => entry.1.initializers entry.2) = [] :=
    List.flatMap_eq_nil_iff.2 fun entry hb =>
      ext.initializers_newBodies (List.fst_mem_of_mem_zipIdx hb) entry.2
  unfold Registration.initializers
  rw [List.zipIdx_append, List.flatMap_append, Nat.zero_add, hnone, List.append_nil]

/-- The constant fields are those that were there. -/
theorem alike_constantFields :
    ((Registration.ofTrees trees).constantFields (bodies trees)).Alike
      ((Registration.ofTrees (trees ++ more)).constantFields
        ((Registration.ofTrees (trees ++ more)).bodies (trees ++ more))) := by
  have hinitializers := ext.initializers
  refine ⟨?_, ext.field?, ?_, fun id init hinit => ?_⟩
  · exact (Registration.alike_withMembers _ _).trans
      (ext.grows.alike.trans (Registration.alike_withMembers _ _).symm)
  · rw [Registration.constantFields, Registration.constantFields, ext.bodies_append, hinitializers]
  · rw [Registration.constantFields, Registration.constantFields, ext.bodies_append, hinitializers]
    have hscope := Registration.scope_lt_of_get? hinit
    unfold Initializers.scopeOf? Registration.initializers
    dsimp only
    rw [List.map_append, List.getElem?_append_left (by simpa using hscope)]

/-- The completed types of the program have further properties, after the members that they had. -/
theorem completed {key : TypeKey} {e : TypeEntry}
    (he : (Completion.ofRegistration (.ofTrees trees) trees).registry.get? key = some e) :
    ∃ e' added,
      (Completion.ofRegistration (.ofTrees (trees ++ more)) (trees ++ more)).registry.get? key =
        some e' ∧ e'.members = e.members ++ added ∧
      List.Forall₂ IsProperty (more.flatMap fun t => (t.propertiesIn key).map (t, ·)) added := by
  have hvalues := ext.alike_constantFields.evaluateAll
  have hold := Completion.members_ofRegistration (.ofTrees trees) trees key
  have hnew := Completion.members_ofRegistration (.ofTrees (trees ++ more)) (trees ++ more) key
  change _ = Option.map (List.map (((Registration.ofTrees trees).constantFields
    (bodies trees)).evaluateAll .empty |>.settled key)) (((Registration.ofTrees trees).withMembers
      (bodies trees)).get? key |>.map (·.members)) at hold
  rw [hvalues, he] at hold
  rw [ext.members_withMembers] at hnew
  obtain ⟨members, hmembers, hsettled⟩ := Option.map_eq_some_iff.1 hold.symm
  obtain ⟨base, hbase, rfl⟩ := Option.map_eq_some_iff.1 hmembers
  rw [hbase, Option.map_some, Option.map_some] at hnew
  obtain ⟨e', he', hmembers'⟩ := Option.map_eq_some_iff.1 hnew
  rw [List.map_append, hsettled] at hmembers'
  refine ⟨e', _, he', hmembers', ?_⟩
  rw [List.map_congr_left (g := id) fun m hm => ?_, List.map_id]
  · exact forall₂_newProperties key
  · obtain ⟨p, hp⟩ := Option.isSome_iff_exists.1 (List.mem_filter.1 hm).2
    cases m with
    | property _ => exact FieldValues.settled_property _ _ _
    | field _ | method _ | event _ | nestedType _ _ => cases hp

end Extension

namespace Compilation

variable {documents extra : List Document} {c : Compilation} {more : List SourceTree}

theorem readFrom_append {index : Nat} {trees : List SourceTree}
    (h : readFrom index documents = .ok trees)
    (hextra : readFrom (index + documents.length) extra = .ok more) :
    readFrom index (documents ++ extra) = .ok (trees ++ more) := by
  induction documents generalizing index trees with
  | nil =>
      cases h
      exact hextra
  | cons d rest ih =>
      rw [List.cons_append, readFrom]
      unfold readFrom at h
      cases htree : SourceTree.parse ⟨index⟩ d with
      | error e =>
          rw [htree] at h
          cases h
      | ok tree =>
          rw [htree] at h
          cases hrest : readFrom (index + 1) rest with
          | error e =>
              rw [hrest] at h
              cases h
          | ok list =>
              rw [hrest] at h
              cases h
              rw [List.length_cons, Nat.add_comm _ 1, ← Nat.add_assoc] at hextra
              dsimp only
              rw [ih hrest hextra]
              rfl

/-- A program stays a program when texts come to it that go on with its types.  Its types then have
the properties of those texts after the members that they had. -/
theorem build_append (built : build documents = .ok c)
    (hread : readFrom documents.length extra = .ok more)
    (hcontinues : ∀ t ∈ more, t.Continues (.ofTrees c.trees)) (hadds : ∀ t ∈ more, t.Adds) :
    ∃ c', build (documents ++ extra) = .ok c' ∧
      ∀ key e, c.registry.get? key = some e → ∃ e' added, c'.registry.get? key = some e' ∧
        e'.members = e.members ++ added ∧ List.Forall₂ Extension.IsProperty
          (more.flatMap fun t => (t.propertiesIn key).map (t, ·)) added := by
  obtain ⟨hdocuments, hclean, hregistry, -⟩ := build_eq_ok built
  have hall : read (documents ++ extra) = .ok (c.trees ++ more) :=
    readFrom_append hdocuments (by rwa [Nat.zero_add])
  obtain ⟨htrees, hnodup⟩ := readFrom_eq_ok hall
  have ext : Extension c.trees more := by
    refine ⟨hclean, nodup_ids (fun t ht => ?_) hnodup, hcontinues, hadds⟩
    obtain ⟨-, -, d, -, hparse, -⟩ := htrees t ht
    exact ⟨d, hparse⟩
  refine ⟨⟨c.trees ++ more, (Completion.ofRegistration (.ofTrees (c.trees ++ more))
    (c.trees ++ more)).registry, (Registration.ofTrees (c.trees ++ more)).declared⟩, ?_, ?_⟩
  · unfold build
    rw [hall]
    dsimp only [bind, Except.bind]
    rw [ext.errors]
    rfl
  · intro key e he
    rw [hregistry] at he
    exact ext.completed he

end Compilation

end Graft
