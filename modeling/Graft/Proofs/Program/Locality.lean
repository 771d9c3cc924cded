/-
Module: Graft.Proofs.Program.Locality
Purpose: What the directives of one file mean for the others.
Main exports: Completion.attributes_on, DeclPlace.Linked, DeclBody.Linked,
  Registration.forall₂_bodies, Completion.attributes_local, Completion.members_local, Completion.usings_local

Two programs are compared that differ in one file only, and there in nothing that is declared.  Their
types are registered alike, and what is visible in the other files is the same.  A type with
declarations in several files gets its members and attributes from all of them; each still comes from
one declaration, and is looked up in the scope there.
-/
import Graft.Proofs.Program.Outline
import Graft.Proofs.Program.Summary
import Graft.Proofs.Program.Traced

namespace Graft

/-- The types of trees with all that is known of them. -/
abbrev Completion.ofTrees (trees : List SourceTree) : Completion := ofRegistration (.ofTrees trees) trees

/-! ### Attributes on one declaration -/

/-- The attributes of a type that are on one of its declarations. -/
def TypeEntry.attributesOn (e : TypeEntry) (id : DeclId) : List AttributeEntry :=
  e.attributes.filter (·.declaration = id)

/-- The attributes of a declaration with their classes. -/
theorem DeclBody.classes_attributes (b : DeclBody) (r : Registry) (fields : ConstantFields)
    (values : FieldValues) :
    (b.attributes r fields values).map (fun a => (a.span, a.class?)) =
      b.decl.allAttributes.map fun a => (a.span, Lookup.attribute? r b.scope a.name) := by
  rw [attributes, List.map_map]
  rfl

/-- An attribute names its declaration, so the attributes of a declaration are none of another one. -/
theorem DeclBody.filter_attributes (b : DeclBody) (r : Registry) (fields : ConstantFields)
    (values : FieldValues) (id : DeclId) : (b.attributes r fields values).filter (·.declaration = id) =
      if b.decl.id = id then b.attributes r fields values else [] := by
  split
  · rename_i hid
    refine List.filter_eq_self.2 fun a ha => ?_
    obtain ⟨x, -, rfl⟩ := List.mem_map.1 ha
    exact decide_eq_true hid
  · rename_i hid
    refine List.filter_eq_nil_iff.2 fun a ha => ?_
    obtain ⟨x, -, rfl⟩ := List.mem_map.1 ha
    exact mt of_decide_eq_true hid

/-- Of lists for elements with different numbers, all but that of one element are empty. -/
theorem flatMap_eq_of_nodup {α β κ : Type} {f : α → κ} {g : α → List β} {list : List α}
    (nodup : (list.map f).Nodup) {a : α} (ha : a ∈ list) (others : ∀ b ∈ list, f b ≠ f a → g b = []) :
    list.flatMap g = g a := by
  obtain ⟨before, after, rfl⟩ := List.append_of_mem ha
  rw [List.map_append, List.map_cons, List.nodup_append] at nodup
  obtain ⟨-, hafter, hbefore⟩ := nodup
  have hnil : before.flatMap g = [] := List.flatMap_eq_nil_iff.2 fun b hb =>
    others b (List.mem_append_left _ hb) (hbefore (f b) (List.mem_map_of_mem hb) (f a) List.mem_cons_self)
  have hnil' : after.flatMap g = [] := List.flatMap_eq_nil_iff.2 fun b hb =>
    others b (List.mem_append_right _ (List.mem_cons_of_mem _ hb)) fun heq =>
      (List.nodup_cons.1 hafter).1 (heq ▸ List.mem_map_of_mem hb)
  rw [List.flatMap_append, List.flatMap_cons, hnil, hnil', List.append_nil, List.nil_append]

namespace Completion

variable {trees : List SourceTree}

/-- A completed program has the types of its declarations. -/
theorem exists_entry (hids : ((DeclPlace.ofTrees trees).map (·.site.decl.id)).Nodup)
    (clean : (Registration.ofTrees trees).errors = []) {p : DeclPlace} (hp : p ∈ DeclPlace.ofTrees trees) :
    ∃ e, (ofTrees trees).registry.get? p.site.key = some e := by
  rw [DeclPlace.ids_ofTrees] at hids
  obtain ⟨ht, hs⟩ := DeclPlace.mem_ofTrees.1 hp
  obtain ⟨e, he, -⟩ := (Registration.holds_of_errors hids clean p.tree ht p.site hs).entry
  rw [← Option.isSome_iff_exists, (alike_ofRegistration _ _).isSome_get?, he]
  rfl

/-- The attributes of a completed type that are on one of its declarations are those that are written
there. -/
theorem attributes_on (hids : ((DeclPlace.ofTrees trees).map (·.site.decl.id)).Nodup)
    (clean : (Registration.ofTrees trees).errors = []) {p : DeclPlace} (hp : p ∈ DeclPlace.ofTrees trees)
    {e : TypeEntry} (he : (ofTrees trees).registry.get? p.site.key = some e) :
    let g := Registration.ofTrees trees
    e.attributesOn p.site.decl.id =
      (Registration.bodyOf (.ofTrees g.registry trees) p.tree p.site).attributes g.registry
        (g.constantFields (g.bodies trees)) ((g.constantFields (g.bodies trees)).evaluateAll .empty) := by
  intro g
  rw [TypeEntry.attributesOn, attributes_ofRegistration g (Registration.plain_ofTrees trees) trees he,
    List.filter_flatMap, Registration.bodies_eq_map hids clean, List.filter_map, List.flatMap_map]
  have hnodup : (((DeclPlace.ofTrees trees).filter ((·.owner = p.site.key) ∘ fun q : DeclPlace =>
      Registration.bodyOf (.ofTrees g.registry trees) q.tree q.site)).map (·.site.decl.id)).Nodup :=
    hids.sublist (List.filter_sublist.map _)
  have hmem : p ∈ (DeclPlace.ofTrees trees).filter ((·.owner = p.site.key) ∘ fun q : DeclPlace =>
      Registration.bodyOf (.ofTrees g.registry trees) q.tree q.site) :=
        List.mem_filter.2 ⟨hp, decide_eq_true rfl⟩
  rw [flatMap_eq_of_nodup hnodup hmem fun q _ hne =>
    (DeclBody.filter_attributes _ _ _ _ _).trans (if_neg hne), DeclBody.filter_attributes]
  exact if_pos rfl

end Completion

/-! ### Programs that differ in one file -/

/-- Lists with equal images are related element by element. -/
theorem forall₂_of_map_eq {α β γ : Type} {f : α → γ} {g : β → γ} {list : List α} {list' : List β}
    (h : list.map f = list'.map g) : List.Forall₂ (fun a b => f a = g b) list list' := by
  rwa [← List.forall₂_eq_eq_eq, List.forall₂_map_left_iff, List.forall₂_map_right_iff] at h

/-- Two declarations have one outline, and those that are none of some declarations are the same. -/
structure DeclPlace.Linked (inside : List DeclId) (p q : DeclPlace) : Prop where
  outline : p.site.outline = q.site.outline
  same : p.site.decl.id ∉ inside → p = q

/-- Two bodies of one type have the same members but for types, and those of declarations that are none of
some are the same. -/
structure DeclBody.Linked (inside : List DeclId) (b b' : DeclBody) : Prop where
  owner : b.owner = b'.owner
  id : b.decl.id = b'.decl.id
  members : b.decl.members.map MemberDecl.outline = b'.decl.members.map MemberDecl.outline
  same : b.decl.id ∉ inside → b = b'

/-- Linked declarations have linked bodies. -/
theorem DeclPlace.Linked.bodyOf {inside : List DeclId} {p q : DeclPlace} (linked : Linked inside p q)
    (f : FileScopes) :
    DeclBody.Linked inside (Registration.bodyOf f p.tree p.site) (Registration.bodyOf f q.tree q.site) where
  owner := DeclSite.key_eq_of_outline linked.outline
  id := DeclSite.id_eq_of_outline linked.outline
  members := congrArg DeclOutline.members linked.outline
  same houtside := by rw [linked.same houtside]

namespace DeclBody

/-- Member declarations with one outline declare members with the same names. -/
theorem forall₂_membersOf (b b' : DeclBody) (r : Registry) (declared : Assoc DeclId TypeKey)
    {m m' : MemberDecl} (same : m.outline = m'.outline) :
    List.Forall₂ MemberEntry.SameName (b.membersOf r declared m) (b'.membersOf r declared m') := by
  cases m with
  | field d =>
      cases m' with
      | field d' =>
          simp only [MemberDecl.outline, MemberOutline.field.injEq] at same
          rw [membersOf, membersOf, List.forall₂_map_left_iff, List.forall₂_map_right_iff]
          exact (forall₂_of_map_eq same.2).imp fun _ _ name => .field name same.1
      | property _ | method _ | event _ | type _ | other _ => cases same
  | property d =>
      cases m' with
      | property d' =>
          simp only [MemberDecl.outline, MemberOutline.property.injEq] at same
          exact .cons (.property same.2 same.1) .nil
      | field _ | method _ | event _ | type _ | other _ => cases same
  | method d =>
      cases m' with
      | method d' =>
          simp only [MemberDecl.outline, MemberOutline.method.injEq] at same
          exact .cons (.method same.2 same.1) .nil
      | field _ | property _ | event _ | type _ | other _ => cases same
  | event d =>
      cases m' with
      | event d' =>
          simp only [MemberDecl.outline, MemberOutline.event.injEq] at same
          rw [membersOf, membersOf, List.forall₂_map_left_iff, List.forall₂_map_right_iff]
          exact (forall₂_of_map_eq same.2).imp fun _ _ name => .event name same.1
      | field _ | property _ | method _ | type _ | other _ => cases same
  | type d =>
      cases m' with
      | type d' =>
          simp only [MemberDecl.outline, MemberOutline.type.injEq] at same
          rw [membersOf, membersOf, same.1, same.2]
          exact List.forall₂_same.2 fun m _ => .refl m
      | field _ | property _ | method _ | event _ | other _ => cases same
  | other _ =>
      cases m' with
      | other _ => exact .nil
      | field _ | property _ | method _ | event _ | type _ => cases same

/-- Linked bodies declare linked members. -/
theorem Linked.forall₂_members {inside : List DeclId} {b b' : DeclBody} (linked : Linked inside b b')
    (r : Registry) (declared : Assoc DeclId TypeKey) :
    List.Forall₂ (TracedMember.Linked inside) ((b.members r declared).map (b.decl.id, ·))
      ((b'.members r declared).map (b'.decl.id, ·)) := by
  by_cases hinside : b.decl.id ∈ inside
  · have hmembers : List.Forall₂ MemberEntry.SameName (b.members r declared) (b'.members r declared) :=
      List.rel_flatMap (forall₂_of_map_eq linked.members) fun _ _ same =>
        forall₂_membersOf b b' r declared same
    rw [List.forall₂_map_left_iff, List.forall₂_map_right_iff]
    exact hmembers.imp fun m m' hsame => ⟨linked.id, hsame, fun houtside => absurd hinside houtside⟩
  · rw [linked.same hinside]
    exact List.forall₂_same.2 fun x _ => .refl x

end DeclBody

namespace Registration

/-- The members of types with linked declarations are linked. -/
theorem forall₂_firstDeclared {inside : List DeclId} {bodies bodies' : List DeclBody} {g g' : Registration}
    (state : SameState g g') (linked : List.Forall₂ (DeclBody.Linked inside) bodies bodies')
    (key : TypeKey) :
    List.Forall₂ (TracedMember.Linked inside) (g.firstDeclared bodies key)
      (g'.firstDeclared bodies' key) := by
  have hown : List.Forall₂ (DeclBody.Linked inside) (bodies.filter (·.owner = key))
      (bodies'.filter (·.owner = key)) :=
    List.rel_filter (fun b b' h => by simp only [decide_eq_true_eq, h.owner]) linked
  have htraced : List.Forall₂ (TracedMember.Linked inside) (g.tracedIn bodies key)
      (g'.tracedIn bodies' key) := by
    rw [tracedIn, tracedIn, state.registry, state.declared]
    exact List.rel_flatMap hown fun b b' h => h.forall₂_members g'.registry g'.declared
  exact TracedMember.forall₂_foldl_addTo htraced .nil

end Registration

/-- A tree's declarations, and those of the other trees. -/
theorem DeclPlace.ofTrees_perm_middle (before after : List SourceTree) (t : SourceTree) :
    (ofTrees (before ++ t :: after)).Perm (t.sites.map (⟨t, ·⟩) ++ ofTrees (before ++ after)) :=
  List.perm_middle.flatMap_right _

section

variable (before after : List SourceTree) {t t' : SourceTree} (same : t.SameDeclarations t')
include same

/-- The declarations of the two programs are linked. -/
theorem DeclPlace.forall₂_ofTrees :
    List.Forall₂ (Linked (t.sites.map (·.decl.id))) (ofTrees (before ++ t :: after))
      (ofTrees (before ++ t' :: after)) := by
  have hrefl : ∀ places : List DeclPlace, List.Forall₂ (Linked (t.sites.map (·.decl.id))) places places :=
    fun places => List.forall₂_same.2 fun _ _ => ⟨rfl, fun _ => rfl⟩
  have hchanged : List.Forall₂ (Linked (t.sites.map (·.decl.id))) (t.sites.map (⟨t, ·⟩))
      (t'.sites.map (⟨t', ·⟩)) := by
    have hsites := (List.forall₂_and_left t.sites t'.sites).2
      ⟨fun _ => List.mem_map_of_mem (f := (·.decl.id)),
      forall₂_of_map_eq (congrArg TreeOutline.decls same.outline)⟩
    rw [List.forall₂_map_left_iff, List.forall₂_map_right_iff]
    exact hsites.imp fun _ _ h => ⟨h.2, fun houtside => absurd h.1 houtside⟩
  rw [ofTrees, ofTrees, List.flatMap_append, List.flatMap_append, List.flatMap_cons, List.flatMap_cons]
  exact List.rel_append (hrefl _) (List.rel_append hchanged (hrefl _))

/-- The declarations of the two programs have the same numbers. -/
theorem DeclPlace.ids_eq_of_same : (ofTrees (before ++ t :: after)).map (·.site.decl.id) =
    (ofTrees (before ++ t' :: after)).map (·.site.decl.id) := by
  rw [← List.forall₂_eq_eq_eq, List.forall₂_map_left_iff, List.forall₂_map_right_iff]
  exact (forall₂_ofTrees before after same).imp fun _ _ h => DeclSite.id_eq_of_outline h.outline

/-- The same is visible in the other files of the two programs. -/
theorem FileScopes.ofTrees_eq (r : Registry) :
    ofTrees r (before ++ t :: after) = ofTrees r (before ++ t' :: after) := by
  simp only [ofTrees, List.flatMap_append, List.flatMap_cons, List.filter_append, same.shared]

/-- If one of the two programs has no errors, the other one has none. -/
theorem Registration.errors_eq_nil_of_same (clean : (ofTrees (before ++ t :: after)).errors = []) :
    (ofTrees (before ++ t' :: after)).errors = [] := by
  rw [← List.length_eq_zero_iff, ← (sameState_ofTrees before after same).errors, clean, List.length_nil]

variable (hids : ((DeclPlace.ofTrees (before ++ t :: after)).map (·.site.decl.id)).Nodup)
  (clean : (Registration.ofTrees (before ++ t :: after)).errors = [])
include hids clean

/-- The bodies of the two programs are linked. -/
theorem Registration.forall₂_bodies :
    List.Forall₂ (DeclBody.Linked (t.sites.map (·.decl.id)))
      ((ofTrees (before ++ t :: after)).bodies (before ++ t :: after))
      ((ofTrees (before ++ t' :: after)).bodies (before ++ t' :: after)) := by
  have hids' := hids
  rw [DeclPlace.ids_eq_of_same before after same] at hids'
  rw [bodies_eq_map hids clean, bodies_eq_map hids' (errors_eq_nil_of_same before after same clean),
    ← (sameState_ofTrees before after same).registry, ← FileScopes.ofTrees_eq before after same,
    List.forall₂_map_left_iff, List.forall₂_map_right_iff]
  exact (DeclPlace.forall₂_ofTrees before after same).imp fun _ _ h => h.bodyOf _

namespace Completion

/-- The attributes on a declaration in another file have the same classes in the two programs. -/
theorem attributes_local {p : DeclPlace} (hp : p ∈ DeclPlace.ofTrees (before ++ after)) :
    ∃ e e', (ofTrees (before ++ t :: after)).registry.get? p.site.key = some e ∧
      (ofTrees (before ++ t' :: after)).registry.get? p.site.key = some e' ∧
      (e.attributesOn p.site.decl.id).map (·.span) = p.site.decl.allAttributes.map (·.span) ∧
      (e.attributesOn p.site.decl.id).map (fun a => (a.span, a.class?)) =
        (e'.attributesOn p.site.decl.id).map fun a => (a.span, a.class?) := by
  have hids' := hids
  rw [DeclPlace.ids_eq_of_same before after same] at hids'
  have clean' := Registration.errors_eq_nil_of_same before after same clean
  have hmem : ∀ u, p ∈ DeclPlace.ofTrees (before ++ u :: after) := fun u =>
    (DeclPlace.ofTrees_perm_middle before after u).mem_iff.2 (List.mem_append_right _ hp)
  obtain ⟨e, he⟩ := exists_entry hids clean (hmem t)
  obtain ⟨e', he'⟩ := exists_entry hids' clean' (hmem t')
  refine ⟨e, e', he, he', ?_, ?_⟩
  · rw [attributes_on hids clean (hmem t) he, DeclBody.attributes, List.map_map]
    rfl
  · rw [attributes_on hids clean (hmem t) he, attributes_on hids' clean' (hmem t') he',
      DeclBody.classes_attributes, DeclBody.classes_attributes,
      ← (Registration.sameState_ofTrees before after same).registry,
      ← FileScopes.ofTrees_eq before after same]

/-- A type has the same members in the two programs, and those that are first declared in another file have
the same types. -/
theorem members_local {key : TypeKey} {e : TypeEntry}
    (he : (ofTrees (before ++ t :: after)).registry.get? key = some e) :
    let g := Registration.ofTrees (before ++ t :: after)
    let firsts := (g.firstDeclared (g.bodies (before ++ t :: after)) key).map Prod.fst
    firsts.length = e.members.length ∧ ∃ e', (ofTrees (before ++ t' :: after)).registry.get? key = some e' ∧
      List.Forall₂ (fun (x : TracedMember) m => x.2.name = m.name ∧ x.2.kindName = m.kindName ∧
        (x.1 ∈ (DeclPlace.ofTrees (before ++ after)).map (·.site.decl.id) → x.2.type? = m.type?))
        (firsts.zip e.members) e'.members := by
  intro g firsts
  have state := Registration.sameState_ofTrees before after same
  obtain ⟨e', he'⟩ : ∃ e', (ofTrees (before ++ t' :: after)).registry.get? key = some e' := by
    rw [← Option.isSome_iff_exists, (alike_ofRegistration _ _).isSome_get?, ← state.registry,
      ← (alike_ofRegistration _ (before ++ t :: after)).isSome_get?, he]
    rfl
  have hmembers := members_eq_firstDeclared (before ++ t :: after) he
  have hmembers' := members_eq_firstDeclared (before ++ t' :: after) he'
  have hlinked := Registration.forall₂_firstDeclared state
    (Registration.forall₂_bodies before after same hids clean) key
  -- what is declared in another file is not declared in the one that differs
  have houtside : ∀ id ∈ (DeclPlace.ofTrees (before ++ after)).map (·.site.decl.id),
      id ∉ t.sites.map (·.decl.id) := by
    rw [((DeclPlace.ofTrees_perm_middle before after t).map _).nodup_iff, List.map_append,
      List.nodup_append] at hids
    intro id hid hinside
    refine hids.2.2 id ?_ id hid rfl
    rwa [List.map_map]
  refine ⟨?_, e', he', ?_⟩
  · rw [hmembers, List.length_map, List.length_map, List.length_map]
  · rw [hmembers, hmembers', List.map_map, List.zip_map', List.map_map, List.forall₂_map_left_iff,
      List.forall₂_map_right_iff]
    refine hlinked.imp fun x y h => ?_
    obtain ⟨hname, hkind, htype⟩ := FieldValues.settled_spec
      ((g.constantFields (g.bodies (before ++ t :: after))).evaluateAll .empty) key x.2
    obtain ⟨hname', hkind', htype'⟩ := FieldValues.settled_spec
      (((Registration.ofTrees (before ++ t' :: after)).constantFields
        ((Registration.ofTrees (before ++ t' :: after)).bodies (before ++ t' :: after))).evaluateAll
          .empty) key y.2
    refine ⟨hname.trans (h.sameName.name.trans hname'.symm),
      hkind.trans (h.sameName.kindName.trans hkind'.symm), fun hother => ?_⟩
    exact htype.trans ((h.type? (houtside _ hother)).trans htype'.symm)

end Completion

end

namespace Completion

/-- The directives in one file that are for itself or for a namespace in it mean nothing in the other files.
Two programs may differ in one file by such directives, see `SourceTree.sameDeclarations_of_bare`, and by all
that is no declaration.  If the declarations have numbers of their own and one program is registered without
errors, so is the other one.  An attribute on a declaration in another file is then recorded in both with the
same class.  A type has the same members in both, and a member that is first declared in another file has the
same type. -/
theorem usings_local (before after : List SourceTree) (t t' : SourceTree) (same : t.SameDeclarations t')
    (hids : ((DeclPlace.ofTrees (before ++ t :: after)).map (·.site.decl.id)).Nodup)
    (clean : (Registration.ofTrees (before ++ t :: after)).errors = []) :
    let trees := before ++ t :: after
    let trees' := before ++ t' :: after
    let r := (ofTrees trees).registry
    let r' := (ofTrees trees').registry
    let others := DeclPlace.ofTrees (before ++ after)
    (Registration.ofTrees trees').errors = [] ∧
    (∀ p ∈ others, ∃ e e', r.get? p.site.key = some e ∧ r'.get? p.site.key = some e' ∧
      (e.attributesOn p.site.decl.id).map (·.span) = p.site.decl.allAttributes.map (·.span) ∧
      (e.attributesOn p.site.decl.id).map (fun a => (a.span, a.class?)) =
        (e'.attributesOn p.site.decl.id).map fun a => (a.span, a.class?)) ∧
    ∀ key e, r.get? key = some e →
      let g := Registration.ofTrees trees
      let firsts := (g.firstDeclared (g.bodies trees) key).map Prod.fst
      firsts.length = e.members.length ∧ ∃ e', r'.get? key = some e' ∧
        List.Forall₂ (fun (x : TracedMember) m => x.2.name = m.name ∧ x.2.kindName = m.kindName ∧
          (x.1 ∈ others.map (·.site.decl.id) → x.2.type? = m.type?)) (firsts.zip e.members) e'.members :=
  ⟨Registration.errors_eq_nil_of_same before after same clean,
    fun _ hp => attributes_local before after same hids clean hp,
    fun _ _ he => members_local before after same hids clean he⟩

/-! ### Sample files -/

/-- Two classes in a namespace. -/
def namespaceFile : Document :=
  ⟨"a.cs", "namespace N\x7bclass MarkAttribute\x7b\x7dclass T\x7b\x7d\x7d", .source⟩

/-- A part of a class that can name the classes in the namespace. -/
def importingFile : Document := ⟨"b.cs", "using N;partial class P\x7bT x;\x7d", .source⟩

/-- The same part without the directive. -/
def plainFile : Document := ⟨"b.cs", "partial class P\x7bT x;\x7d", .source⟩

/-- A further part with an attribute and a directive of its own. -/
def markedFile : Document := ⟨"c.cs", "using N;[Mark]partial class P\x7bT y;\x7d", .source⟩

/-- What a program of three files says of the type that is declared first in the last one: the declaration,
the classes of the attributes on it, and for each member the declaration that it is first declared in and the
definition that its type names. -/
def lastType? (first second last : SourceTree) :
    Option (DeclId × List (Option TypeKey) × List (DeclId × Option TypeKey)) := do
  let trees := [first, second, last]
  let s ← last.sites.head?
  let e ← (ofTrees trees).registry.get? s.key
  let g := Registration.ofTrees trees
  let firsts := (g.firstDeclared (g.bodies trees) s.key).map Prod.fst
  return (s.decl.id, (e.attributesOn s.decl.id).map (·.class?),
    firsts.zip (e.members.map fun m => m.type?.bind (·.definition?)))

theorem of_lastType?_eq_some {first second last : SourceTree} {id : DeclId} {classes : List (Option TypeKey)}
    {members : List (DeclId × Option TypeKey)}
    (h : lastType? first second last = some (id, classes, members)) :
    let trees := [first, second, last]
    let g := Registration.ofTrees trees
    ∃ s ∈ last.sites, ∃ e, (ofTrees trees).registry.get? s.key = some e ∧ s.decl.id = id ∧
      (e.attributesOn s.decl.id).map (·.class?) = classes ∧
      (((g.firstDeclared (g.bodies trees) s.key).map Prod.fst).zip e.members).map
        (fun x => (x.1, x.2.type?.bind (·.definition?))) = members := by
  intro trees g
  unfold lastType? at h
  obtain ⟨s, hs, h⟩ := Option.bind_eq_some_iff.1 h
  obtain ⟨e, he, h⟩ := Option.bind_eq_some_iff.1 h
  obtain ⟨hid, h⟩ := Prod.mk.inj (Option.some.inj h)
  obtain ⟨hclasses, hmembers⟩ := Prod.mk.inj h
  refine ⟨s, List.mem_of_mem_head? hs, e, he, hid, hclasses, ?_⟩
  rw [← hmembers, List.zip_map_right]
  rfl

/-- The two files in the middle declare the same and have no directives for all files.  The last file knows
the two classes in the namespace. -/
def samplesHold (first t t' last : SourceTree) : Bool :=
  match first.sites.map (·.key) with
  | [mark, named] =>
      decide (t.origin = t'.origin ∧ t.file.usings.filter (·.isGlobal) = [] ∧
        t'.file.usings.filter (·.isGlobal) = [] ∧ t.outline = t'.outline ∧
        (Registration.ofTrees [first, t, last]).errors = [] ∧
        lastType? first t last =
        some (⟨⟨2⟩, 0⟩, [some mark], [(⟨⟨1⟩, 0⟩, some named), (⟨⟨2⟩, 0⟩, some named)]))
  | _ => false

/-- The trees of the sample files, if they are as they should be. -/
def samples? : Option (SourceTree × SourceTree × SourceTree × SourceTree) := do
  let first ← (SourceTree.parse ⟨0⟩ namespaceFile).toOption
  let t ← (SourceTree.parse ⟨1⟩ importingFile).toOption
  let t' ← (SourceTree.parse ⟨1⟩ plainFile).toOption
  let last ← (SourceTree.parse ⟨2⟩ markedFile).toOption
  if samplesHold first t t' last then some (first, t, t', last) else none

theorem of_samples?_eq_some {first t t' last : SourceTree} (h : samples? = some (first, t, t', last)) :
    Compilation.read [namespaceFile, importingFile, markedFile] = .ok [first, t, last] ∧
      Compilation.read [namespaceFile, plainFile, markedFile] = .ok [first, t', last] ∧
      ∃ mark named, first.sites.map (·.key) = [mark, named] ∧ t.SameDeclarations t' ∧
        (Registration.ofTrees [first, t, last]).errors = [] ∧ lastType? first t last =
          some (⟨⟨2⟩, 0⟩, [some mark], [(⟨⟨1⟩, 0⟩, some named), (⟨⟨2⟩, 0⟩, some named)]) := by
  unfold samples? at h
  obtain ⟨_, hfirst, h⟩ := Option.bind_eq_some_iff.1 h
  obtain ⟨_, ht, h⟩ := Option.bind_eq_some_iff.1 h
  obtain ⟨_, ht', h⟩ := Option.bind_eq_some_iff.1 h
  obtain ⟨_, hlast, h⟩ := Option.bind_eq_some_iff.1 h
  split at h
  · rename_i hholds
    cases h
    have hread : ∀ {d : Document} {u : SourceTree}, SourceTree.parse ⟨1⟩ d = .ok u →
        Compilation.read [namespaceFile, d, markedFile] = .ok [first, u, last] := by
      intro d u hu
      simp only [Compilation.read, Compilation.readFrom, Nat.reduceAdd, eq_ok_of_toOption hfirst, hu,
        eq_ok_of_toOption hlast]
      rfl
    refine ⟨hread (eq_ok_of_toOption ht), hread (eq_ok_of_toOption ht'), ?_⟩
    unfold samplesHold at hholds
    split at hholds
    · rename_i mark named hkeys
      obtain ⟨horigin, hshared, hshared', houtline, clean, htype⟩ := of_decide_eq_true hholds
      exact ⟨mark, named, hkeys, ⟨horigin, hshared.trans hshared'.symm, houtline⟩, clean, htype⟩
    · cases hholds
  · cases h

/-- Without the directive in the second file, the last file still knows the classes in the namespace. -/
theorem usings_local_splitClass :
    ∃ first t' last mark named, Compilation.read [namespaceFile, plainFile, markedFile] =
      .ok [first, t', last] ∧ first.sites.map (·.key) = [mark, named] ∧ ∃ s ∈ last.sites, ∃ e x y,
        (ofTrees [first, t', last]).registry.get? s.key = some e ∧
        (e.attributesOn s.decl.id).map (·.class?) = [some mark] ∧
        e.members = [x, y] ∧ y.type?.bind (·.definition?) = some named := by
  obtain ⟨⟨first, t, t', last⟩, hsamples⟩ :=
    Option.isSome_iff_exists.1 (show samples?.isSome by decide +kernel)
  obtain ⟨hread, hread', mark, named, hkeys, same, clean, htype⟩ := of_samples?_eq_some hsamples
  obtain ⟨s, hs, e, he, hid, hclasses, hmembers⟩ := of_lastType?_eq_some htype
  obtain ⟨-, hattributes, htypes⟩ :=
    usings_local [first] [last] t t' same (DeclPlace.nodup_ids_of_read hread) clean
  simp only [List.singleton_append] at hattributes htypes
  have hp : (⟨last, s⟩ : DeclPlace) ∈ DeclPlace.ofTrees [first, last] :=
    DeclPlace.mem_ofTrees.2 ⟨List.mem_cons_of_mem _ List.mem_cons_self, hs⟩
  obtain ⟨_, e', heq, he', -, hsame⟩ := hattributes ⟨last, s⟩ hp
  obtain rfl := Option.some.inj (he.symm.trans heq)
  obtain ⟨-, _, heq', hforall⟩ := htypes s.key e he
  obtain rfl := Option.some.inj (he'.symm.trans heq')
  obtain ⟨a, _, hzip, -, hrest⟩ := List.map_eq_cons_iff.1 hmembers
  obtain ⟨b, _, rfl, hb, hnil⟩ := List.map_eq_cons_iff.1 hrest
  obtain rfl := List.map_eq_nil_iff.1 hnil
  rw [hzip] at hforall
  obtain ⟨x, _, -, hlater, hx⟩ := List.forall₂_cons_left_iff.1 hforall
  obtain ⟨y, _, ⟨-, -, hy⟩, hend, rfl⟩ := List.forall₂_cons_left_iff.1 hlater
  obtain rfl := List.forall₂_nil_left_iff.1 hend
  refine ⟨first, t', last, mark, named, hread', hkeys, s, hs, e', x, y, he', ?_, hx, ?_⟩
  · have hclasses' := congrArg (List.map Prod.snd) hsame
    rw [List.map_map, List.map_map] at hclasses'
    exact hclasses'.symm.trans hclasses
  · have hother : b.1 ∈ (DeclPlace.ofTrees [first, last]).map (·.site.decl.id) := by
      rw [(Prod.mk.inj hb).1, ← hid]
      exact List.mem_map_of_mem hp
    rw [← hy hother]
    exact (Prod.mk.inj hb).2

end Completion

end Graft
