/-
Module: Graft.Proofs.Program.Attributes
Purpose: The attributes of a completed type and the declarations that they are written on.
Main exports: DeclPlace.ofTrees, Registration.bodies_eq_map, Compilation.places, Compilation.scopeAt,
  Compilation.attributes_of_build, Compilation.attributeClass?_of_build

Attributes come to a type one by one, in the order of its declarations.  A declaration has its own number and
each attribute on it its own place, so an attribute is found again by the two.
-/
import Mathlib.Data.List.Nodup
import Graft.Proofs.Program.Extension
import Graft.Proofs.Program.Positions

namespace Graft

/-! ### Places of attributes -/

namespace DeclSite

section

variable {spaces : List NamespaceDecl}

mutual

/-- A declaration holds those in it. -/
theorem holds_ofType (containers : List TypeDecl) : ∀ decl : TypeDeclOf MemberDecl,
    ∀ s ∈ ofType spaces containers decl, (Part.type decl).Holds (.type s.decl)
  | ⟨id, attributes, modifiers, kind, name, typeParams, members, span⟩ => by
      intro s hs
      rw [ofType] at hs
      rcases List.mem_cons.1 hs with rfl | hs
      · exact .self
      · obtain ⟨m, hm, hholds⟩ := holds_ofMembers _ members s hs
        exact .inside (List.mem_cons_of_mem _ List.mem_cons_self) (List.mem_map_of_mem hm) hholds

theorem holds_ofMembers (containers : List TypeDecl) : ∀ members : List MemberDecl,
    ∀ s ∈ ofMembers spaces containers members, ∃ m ∈ members, (Part.member m).Holds (.type s.decl)
  | [] => by simp [ofMembers]
  | decl :: rest => by
      intro s hs
      rw [ofMembers] at hs
      rcases List.mem_append.1 hs with hs | hs
      · exact ⟨decl, List.mem_cons_self, holds_ofMember containers decl s hs⟩
      · obtain ⟨m, hm, hholds⟩ := holds_ofMembers containers rest s hs
        exact ⟨m, List.mem_cons_of_mem _ hm, hholds⟩

theorem holds_ofMember (containers : List TypeDecl) : ∀ decl : MemberDecl,
    ∀ s ∈ ofMember spaces containers decl, (Part.member decl).Holds (.type s.decl)
  | .type decl => by
      intro s hs
      rw [ofMember] at hs
      exact .inside List.mem_cons_self List.mem_cons_self (holds_ofType containers decl s hs)
  | .field _ | .property _ | .method _ | .event _ | .other _ => by simp [ofMember]

end

end

mutual

theorem holds_ofSpace (outer : List NamespaceDecl) : ∀ decl : NamespaceDeclOf NamespaceMember,
    ∀ s ∈ ofSpace outer decl, (Part.space decl).Holds (.type s.decl)
  | ⟨name, fileScoped, usings, members, span⟩ => by
      intro s hs
      rw [ofSpace] at hs
      obtain ⟨m, hm, hholds⟩ := holds_ofSpaceMembers _ members s hs
      exact .inside (List.mem_cons_of_mem _ List.mem_cons_self) (List.mem_map_of_mem hm) hholds

theorem holds_ofSpaceMembers (outer : List NamespaceDecl) : ∀ members : List NamespaceMember,
    ∀ s ∈ ofSpaceMembers outer members, ∃ m ∈ members, (Part.ofNamespaceMember m).Holds (.type s.decl)
  | [] => by simp [ofSpaceMembers]
  | .space decl :: rest => by
      intro s hs
      rw [ofSpaceMembers] at hs
      rcases List.mem_append.1 hs with hs | hs
      · exact ⟨_, List.mem_cons_self, holds_ofSpace outer decl s hs⟩
      · obtain ⟨m, hm, hholds⟩ := holds_ofSpaceMembers outer rest s hs
        exact ⟨m, List.mem_cons_of_mem _ hm, hholds⟩
  | .type decl :: rest => by
      intro s hs
      rw [ofSpaceMembers] at hs
      rcases List.mem_append.1 hs with hs | hs
      · exact ⟨_, List.mem_cons_self, holds_ofType [] decl s hs⟩
      · obtain ⟨m, hm, hholds⟩ := holds_ofSpaceMembers outer rest s hs
        exact ⟨m, List.mem_cons_of_mem _ hm, hholds⟩

end

end DeclSite

/-- A source holds the declarations of types in it. -/
theorem SourceTree.holds_of_mem_sites {t : SourceTree} {s : DeclSite} (hs : s ∈ t.sites) :
    t.file.Holds (.type s.decl) := by
  obtain ⟨m, hm, hholds⟩ := DeclSite.holds_ofSpaceMembers [] t.file.members s hs
  exact ⟨_, List.mem_cons_of_mem _ (List.mem_cons_of_mem _ List.mem_cons_self), _,
    List.mem_map_of_mem hm, hholds⟩

/-- The attributes in lists that follow one another do so themselves. -/
theorem Part.Row.attributes {all : List Token} {i j : Nat} {lists : List AttributeList}
    (h : Row all i j (lists.map .attributeList)) :
    Row all i j ((lists.flatMap (·.attributes)).map .attributeItem) := by
  induction lists generalizing i with
  | nil => exact .nil h.le
  | cons list rest ih =>
      cases h with
      | cons le first later =>
          rw [List.flatMap_cons, List.map_append]
          exact ((first.rows _ List.mem_cons_self).widen le (Nat.le_refl _)).append (ih later)

/-- The attributes of a declaration stand in places of their own. -/
theorem SourceTree.nodup_spans {id : SourceId} {d : Document} {t : SourceTree} (h : parse id d = .ok t)
    {s : DeclSite} (hs : s ∈ t.sites) : (s.decl.allAttributes.map (·.span)).Nodup := by
  unfold parse at h
  cases hfile : SourceFile.parse id d.text with
  | error e =>
      rw [hfile] at h
      cases h
  | ok file =>
      rw [hfile] at h
      cases h
      obtain ⟨i, j, hat⟩ := SourceFile.at_of_parse hfile (holds_of_mem_sites hs)
      have hrow := (hat.rows _ List.mem_cons_self).attributes.inOrder (TokenStream.inOrder d.text)
      rw [List.Nodup, List.pairwise_map]
      refine (List.pairwise_map.1 hrow).imp fun {a b} hlt (heq : a.span = b.span) => ?_
      exact absurd hlt.1 (by simp [Part.span, heq])

/-! ### Registered types -/

/-- Types whose attributes are not known yet. -/
def Registry.Plain (r : Registry) : Prop := ∀ key e, r.get? key = some e → e.attributes = []

namespace Registry.Plain

variable {r r' : Registry}

/-- A change of a type that adds no attribute. -/
theorem modify (h : r.Plain) (key : TypeKey) {f : TypeEntry → TypeEntry}
    (hf : ∀ e, (f e).attributes = e.attributes) : (r.modify key f).Plain := by
  intro k e he
  rw [get?_modify] at he
  split at he
  · obtain ⟨old, hold, rfl⟩ := Option.map_eq_some_iff.1 he
    rw [hf]
    exact h key old hold
  · exact h k e he

theorem register (h : r.Plain) {s : DeclSite} {origin : Origin}
    (hregister : r.register (s.newEntry origin) = .ok r') : r'.Plain := by
  intro key e he
  rw [(register_eq_ok hregister).2.2] at he
  split at he
  · cases he
    rfl
  · exact h key e he

end Registry.Plain

namespace Registration

/-- Registration reads no attributes. -/
theorem plain_ofTrees (trees : List SourceTree) : (ofTrees trees).registry.Plain :=
  registry_induction (fun _ _ he => by cases he) (fun _ _ hr => hr) (fun _ _ _ _ _ hr h => hr.register h)
    fun _ key _ hr => hr.modify key fun _ => rfl

end Registration

/-! ### Completed types -/

/-- A type gets the attributes that are its own. -/
theorem Registry.attributes_withAttributes (r : Registry) (attributes : List (TypeKey × AttributeEntry))
    (key : TypeKey) : ((r.withAttributes attributes).get? key).map (·.attributes) =
      (r.get? key).map fun e => e.attributes ++ (attributes.filter (·.1 = key)).map (·.2) := by
  unfold withAttributes
  induction attributes generalizing r with
  | nil => simp
  | cons entry rest ih =>
      obtain ⟨owner, a⟩ := entry
      rw [List.foldl_cons, ih, get?_modify]
      by_cases hkey : key = owner
      · rw [if_pos hkey, hkey, Option.map_map, List.filter_cons_of_pos (by simp)]
        refine Option.map_congr fun e _ => ?_
        simp [TypeEntry.addAttribute]
      · rw [if_neg hkey, List.filter_cons_of_neg (by simpa using fun h => hkey h.symm)]

/-- Completing types leaves them where they are, under their names. -/
theorem Completion.alike_ofRegistration (g : Registration) (trees : List SourceTree) :
    (ofRegistration g trees).registry.Alike g.registry := by
  have hconstants : ∀ (r : Registry) (values : FieldValues), (r.withConstants values).Alike r := by
    refine fun r values => .foldl _ (fun r entry => ?_) _ _
    obtain ⟨id, value⟩ := entry
    cases value with
    | ok c => exact .modify r id.owner fun _ => rfl
    | error _ => exact .refl r
  have hattributes : ∀ (r : Registry) (attributes : List (TypeKey × AttributeEntry)),
      (r.withAttributes attributes).Alike r :=
    fun r attributes => .foldl (fun r (entry : TypeKey × AttributeEntry) =>
      r.modify entry.1 (·.addAttribute entry.2)) (fun r entry => .modify r entry.1 fun _ => rfl) attributes r
  exact (hattributes _ _).trans ((hconstants _ _).trans (g.alike_withMembers _))

theorem Registry.attributes_withConstants (r : Registry) (values : FieldValues) (key : TypeKey) :
    ((r.withConstants values).get? key).map (·.attributes) = (r.get? key).map (·.attributes) := by
  rw [get?_withConstants, Option.map_map]
  rfl

theorem Registration.attributes_withMembers (g : Registration) (bodies : List DeclBody) (key : TypeKey) :
    ((g.withMembers bodies).get? key).map (·.attributes) = (g.registry.get? key).map (·.attributes) := by
  rw [get?_withMembers, Option.map_map]
  rfl

/-- What goes to one owner out of what goes to the owners of a list. -/
private theorem map_filter_flatMap_owned {α β : Type} (owner : α → TypeKey) (owned : α → List β)
    (key : TypeKey) (list : List α) :
    ((list.flatMap fun a => (owned a).map (owner a, ·)).filter (·.1 = key)).map (·.2) =
      (list.filter (owner · = key)).flatMap owned := by
  induction list with
  | nil => rfl
  | cons a rest ih =>
      rw [List.flatMap_cons, List.filter_append, List.map_append, ih]
      by_cases hkey : owner a = key
      · rw [List.filter_cons_of_pos (by simpa using hkey), List.flatMap_cons,
          List.filter_eq_self.2 (by simp [hkey]), List.map_map]
        simp [Function.comp_def]
      · rw [List.filter_cons_of_neg (by simpa using hkey), List.filter_eq_nil_iff.2 (by simp [hkey]),
          List.map_nil, List.nil_append]

/-- A completed type has the attributes on its declarations, in their order. -/
theorem Completion.attributes_ofRegistration (g : Registration) (plain : g.registry.Plain)
    (trees : List SourceTree) {key : TypeKey} {e : TypeEntry}
    (he : (ofRegistration g trees).registry.get? key = some e) :
    e.attributes = ((g.bodies trees).filter (·.owner = key)).flatMap
      (·.attributes g.registry (g.constantFields (g.bodies trees))
        ((g.constantFields (g.bodies trees)).evaluateAll .empty)) := by
  have hmap := congrArg (Option.map (·.attributes)) he
  unfold ofRegistration at hmap
  dsimp only at hmap
  rw [Registry.attributes_withAttributes, map_filter_flatMap_owned] at hmap
  obtain ⟨e', he', hattributes⟩ := Option.map_eq_some_iff.1 hmap
  have hnil : e'.attributes = [] := by
    have hold := congrArg (Option.map (·.attributes)) he'
    rw [Registry.attributes_withConstants, Registration.constantFields,
      Registration.attributes_withMembers] at hold
    obtain ⟨e'', he'', hsame⟩ := Option.map_eq_some_iff.1 hold
    exact hsame.symm.trans (plain key e'' he'')
  exact hattributes.symm.trans (by rw [hnil, List.nil_append])

/-! ### Declarations of trees -/

/-- A declaration of a type, with its tree. -/
structure DeclPlace where
  tree : SourceTree
  site : DeclSite

namespace DeclPlace

/-- The declarations of trees: the trees in order, and in each its declarations in the order of its text. -/
def ofTrees (trees : List SourceTree) : List DeclPlace := trees.flatMap fun t => t.sites.map (⟨t, ·⟩)

theorem mem_ofTrees {trees : List SourceTree} {p : DeclPlace} :
    p ∈ ofTrees trees ↔ p.tree ∈ trees ∧ p.site ∈ p.tree.sites := by
  simp only [ofTrees, List.mem_flatMap, List.mem_map]
  constructor
  · rintro ⟨t, ht, s, hs, rfl⟩
    exact ⟨ht, hs⟩
  · exact fun ⟨ht, hs⟩ => ⟨p.tree, ht, p.site, hs, rfl⟩

/-- The numbers of declarations tree by tree. -/
theorem ids_ofTrees (trees : List SourceTree) :
    (ofTrees trees).map (·.site.decl.id) = trees.flatMap fun t => t.sites.map (·.decl.id) := by
  rw [ofTrees, List.map_flatMap]
  simp only [List.map_map, Function.comp_def]

end DeclPlace

/-- If all declarations are registered, each has a body. -/
theorem Registration.bodies_eq_map {trees : List SourceTree}
    (hids : ((DeclPlace.ofTrees trees).map (·.site.decl.id)).Nodup) (clean : (ofTrees trees).errors = []) :
    (ofTrees trees).bodies trees = (DeclPlace.ofTrees trees).map fun p =>
      bodyOf (.ofTrees (ofTrees trees).registry trees) p.tree p.site := by
  rw [DeclPlace.ids_ofTrees] at hids
  rw [bodies, DeclPlace.ofTrees, List.map_flatMap]
  refine List.flatMap_congr fun t ht => ?_
  rw [bodiesIn_eq fun s hs => (holds_of_errors hids clean t ht s hs).declared, List.map_map]
  rfl

/-! ### Compilations -/

namespace Compilation

/-- The declarations of a compilation: the trees in order, and in each its declarations in the order of
its text. -/
def places (c : Compilation) : List DeclPlace := c.trees.flatMap fun t => t.sites.map (⟨t, ·⟩)

/-- The scope inside a declaration. -/
def scopeAt (c : Compilation) (p : DeclPlace) : Scope :=
  let f := FileScopes.ofTrees c.registry c.trees
  f.inType (f.atTop p.tree) p.site

/-- The constant fields of a compilation, before any of them is evaluated. -/
def constantFields (c : Compilation) : ConstantFields :=
  let g := Registration.ofTrees c.trees
  g.constantFields (g.bodies c.trees)

/-- The body of a declaration. -/
def bodyAt (c : Compilation) (p : DeclPlace) : DeclBody := ⟨p.tree, p.site.decl, p.site.key, c.scopeAt p⟩

/-- What is known of an attribute of a declaration. -/
def attributeAt (c : Compilation) (p : DeclPlace) (a : AttributeSyntax) : AttributeEntry :=
  (c.bodyAt p).attributeEntry c.registry c.constantFields (c.constantFields.evaluateAll .empty) a

variable {documents : List Document} {c : Compilation}

theorem mem_places {p : DeclPlace} : p ∈ c.places ↔ p.tree ∈ c.trees ∧ p.site ∈ p.tree.sites :=
  DeclPlace.mem_ofTrees

variable (built : build documents = .ok c)
include built

/-- A completed compilation is like the one where only the declarations are known. -/
theorem alike_of_build : (Registration.ofTrees c.trees).registry.Alike c.registry := by
  rw [(build_eq_ok built).2.2.1]
  exact (Completion.alike_ofRegistration _ _).symm

/-- A declaration has the body that is completed. -/
theorem bodyOf_of_build (p : DeclPlace) :
    Registration.bodyOf (.ofTrees (Registration.ofTrees c.trees).registry c.trees) p.tree p.site =
      c.bodyAt p := by
  have alike := alike_of_build built
  have hshared : (FileScopes.ofTrees (Registration.ofTrees c.trees).registry c.trees).shared =
      (FileScopes.ofTrees c.registry c.trees).shared := by
    rw [FileScopes.ofTrees, FileScopes.ofTrees, alike.ofUsings]
  rw [Registration.bodyOf, alike.inType rfl rfl hshared]
  rfl

/-- The bodies that are completed are those of all declarations. -/
theorem bodies_of_build : (Registration.ofTrees c.trees).bodies c.trees = c.places.map c.bodyAt := by
  have hids := nodup_ids_of_build built
  rw [← DeclPlace.ids_ofTrees] at hids
  rw [Registration.bodies_eq_map hids (build_eq_ok built).2.1]
  exact List.map_congr_left fun p _ => bodyOf_of_build built p

/-- A declaration is part of the type with its key. -/
theorem declaredType?_of_mem_places {p : DeclPlace} (hp : p ∈ c.places) :
    c.declaredType? p.site.decl.id = some p.site.key := by
  obtain ⟨ht, hs⟩ := mem_places.1 hp
  rw [declaredType?, (build_eq_ok built).2.2.2]
  exact (holds_of_build built _ ht _ hs).declared

/-- A type has the attributes that are written on its declarations: tree by tree, declaration by
declaration, list by list. -/
theorem attributes_of_build {key : TypeKey} {e : TypeEntry} (he : c.registry.get? key = some e) :
    e.attributes = (c.places.filter (·.site.key = key)).flatMap fun p =>
      p.site.decl.allAttributes.map (c.attributeAt p) := by
  rw [(build_eq_ok built).2.2.1] at he
  rw [Completion.attributes_ofRegistration _ (Registration.plain_ofTrees c.trees) _ he,
    bodies_of_build built, List.filter_map, List.flatMap_map]
  refine List.flatMap_congr fun p _ => List.map_congr_left fun a _ => ?_
  rw [attributeAt, DeclBody.attributeEntry, DeclBody.attributeEntry, (alike_of_build built).attribute?,
    constantFields, bodies_of_build built]

/-- Two declarations of a compilation with one number are the same. -/
theorem eq_of_mem_places {p q : DeclPlace} (hp : p ∈ c.places) (hq : q ∈ c.places)
    (h : p.site.decl.id = q.site.decl.id) : p = q := by
  have hnodup : (c.places.map (·.site.decl.id)).Nodup := by
    have hids := nodup_ids_of_build built
    rwa [← DeclPlace.ids_ofTrees] at hids
  exact List.inj_on_of_nodup_map hnodup hp hq h

/-- The attributes of a declaration stand in places of their own. -/
theorem nodup_spans_of_build {p : DeclPlace} (hp : p ∈ c.places) :
    (p.site.decl.allAttributes.map (·.span)).Nodup := by
  obtain ⟨ht, hs⟩ := mem_places.1 hp
  obtain ⟨id, d, hparse⟩ := parse_of_readFrom (build_eq_ok built).1 _ ht
  exact SourceTree.nodup_spans hparse hs

/-- The class of an attribute is the one that its name stands for in the scope of its declaration. -/
theorem attributeClass?_of_build {p : DeclPlace} (hp : p ∈ c.places) {a : AttributeSyntax}
    (ha : a ∈ p.site.decl.allAttributes) :
    c.attributeClass? p.site.decl.id a = Lookup.attribute? c.registry (c.scopeAt p) a.name := by
  obtain ⟨ht, hs⟩ := mem_places.1 hp
  obtain ⟨old, hold, -⟩ := (holds_of_build built _ ht _ hs).entry
  obtain ⟨e, he⟩ := Option.isSome_iff_exists.1
    (((alike_of_build built).isSome_get? p.site.key).symm.trans (Option.isSome_iff_exists.2 ⟨old, hold⟩))
  have hmem : c.attributeAt p a ∈ e.attributes := by
    rw [attributes_of_build built he]
    exact List.mem_flatMap.2 ⟨p, List.mem_filter.2 ⟨hp, by simp⟩, List.mem_map_of_mem ha⟩
  have hunique : ∀ x ∈ e.attributes, x.declaration = p.site.decl.id → x.span = a.span →
      x = c.attributeAt p a := by
    intro x hx hdecl hspan
    rw [attributes_of_build built he] at hx
    obtain ⟨q, hq, hx⟩ := List.mem_flatMap.1 hx
    obtain ⟨b, hb, rfl⟩ := List.mem_map.1 hx
    obtain rfl := eq_of_mem_places built (List.mem_filter.1 hq).1 hp hdecl
    rw [List.inj_on_of_nodup_map (nodup_spans_of_build built hp) hb ha hspan]
  have hfind : e.attributes.find? (fun x => x.declaration = p.site.decl.id && x.span = a.span) =
      some (c.attributeAt p a) := by
    have hsome : (e.attributes.find? fun x => x.declaration = p.site.decl.id && x.span = a.span).isSome :=
      List.find?_isSome.2 ⟨_, hmem, by simp [attributeAt, DeclBody.attributeEntry, bodyAt]⟩
    obtain ⟨x, hx⟩ := Option.isSome_iff_exists.1 hsome
    have hfits := List.find?_some hx
    rw [Bool.and_eq_true, decide_eq_true_eq, decide_eq_true_eq] at hfits
    rw [hx, hunique x (List.mem_of_find?_eq_some hx) hfits.1 hfits.2]
  rw [attributeClass?, declaredType?_of_mem_places built hp]
  simp only [Option.bind_eq_bind, Option.bind_some, he, hfind]
  rfl

end Compilation

end Graft
