/-
Module: Graft.Proofs.Program.TypeParams
Purpose: Which members of a type have a type parameter as their type.
Main exports: Registration.typeParams_ofTrees, Lookup.resolve_bareName_iff,
  Compilation.typeParam_recorded_iff

A type has the type parameters of the declaration that it is registered with first.  Further parts are
found by the number of their type parameters, whatever these are called, and the names in a part are
looked up among those of the first.
-/
import Graft.Proofs.Program.Consistency
import Graft.Proofs.Program.Written

namespace Graft

/-! ### Type parameters of registered types -/

namespace Registration

/-- A declaration that makes a type gives it its type parameters; a further part does not change them. -/
theorem typeParams_place {r r' : Registry} {o : Origin} {s : DeclSite} (h : place r o s = .ok r')
    (key : TypeKey) :
    (r'.get? key).map (·.typeParams) =
      ((r.get? key).map (·.typeParams)).or (if s.key = key then some s.decl.paramNames else none) := by
  unfold place at h
  split at h
  · rename_i hnew
    have hget : ∀ key, r'.get? key = if key = s.key then some (s.newEntry o) else r.get? key :=
      (Registry.register_eq_ok h).2.2
    rw [hget]
    by_cases hkey : s.key = key
    · subst hkey
      rw [if_pos rfl, if_pos rfl, hnew]
      rfl
    · rw [if_neg (Ne.symm hkey), if_neg hkey, Option.or_none]
  · rename_i e he
    split at h
    · cases h
      rw [Registry.get?_modify]
      by_cases hkey : s.key = key
      · subst hkey
        rw [if_pos rfl, if_pos rfl, he]
        rfl
      · rw [if_neg (Ne.symm hkey), if_neg hkey, Option.or_none]
    · cases h

/-- Declarations with other numbers leave open what a declaration is registered as. -/
theorem declared_foldl_addPlace {places : List DeclPlace} {id : DeclId}
    (h : ∀ p ∈ places, id ≠ p.site.decl.id) (g : Registration) :
    (places.foldl addPlace g).declared.get? id = g.declared.get? id := by
  induction places generalizing g with
  | nil => rfl
  | cons p rest ih =>
      rw [List.foldl_cons, ih fun q hq => h q (List.mem_cons_of_mem _ hq)]
      exact declared_add g p.tree.origin p.site (h p List.mem_cons_self)

/-- When declarations are registered one by one, a new type has the type parameters of the first that is
registered under its key. -/
theorem typeParams_foldl_addPlace {places : List DeclPlace} (hids : (places.map (·.site.decl.id)).Nodup)
    (g : Registration) (hnew : ∀ p ∈ places, g.declared.get? p.site.decl.id = none) (key : TypeKey) :
    ((places.foldl addPlace g).registry.get? key).map (·.typeParams) =
      ((g.registry.get? key).map (·.typeParams)).or ((places.find? fun p =>
        (places.foldl addPlace g).declared.get? p.site.decl.id = some key).map
          (·.site.decl.paramNames)) := by
  induction places generalizing g with
  | nil => exact (Option.or_none).symm
  | cons p rest ih =>
      rw [List.map_cons, List.nodup_cons] at hids
      have hothers : ∀ q ∈ rest, p.site.decl.id ≠ q.site.decl.id := fun q hq heq =>
        hids.1 (heq ▸ List.mem_map_of_mem (f := fun q : DeclPlace => q.site.decl.id) hq)
      have hlater : ∀ q ∈ rest, (g.addPlace p).declared.get? q.site.decl.id = none := fun q hq =>
        (declared_add g p.tree.origin p.site (hothers q hq).symm).trans (hnew q (List.mem_cons_of_mem _ hq))
      rw [List.foldl_cons, ih hids.2 _ hlater]
      have hfirst := declared_foldl_addPlace hothers (g.addPlace p)
      rcases add_cases g p.tree.origin p.site with ⟨r, -, hplace, hadd⟩ | ⟨hregistry, hdeclared⟩
      · have hown : (g.addPlace p).declared.get? p.site.decl.id = some p.site.key := by
          rw [addPlace, hadd, Assoc.get?_insert, if_pos rfl]
        have hregistry : (g.addPlace p).registry = r := by rw [addPlace, hadd]
        rw [hregistry, typeParams_place hplace key, Option.or_assoc]
        by_cases hkey : p.site.key = key
        · rw [if_pos hkey, List.find?_cons_of_pos (by rw [hfirst, hown, hkey]; exact decide_eq_true rfl)]
          rfl
        · rw [if_neg hkey, List.find?_cons_of_neg (by rw [hfirst, hown]; simpa using hkey), Option.none_or]
      · have hnone : (g.addPlace p).declared.get? p.site.decl.id = none := by
          rw [addPlace, hdeclared]
          exact hnew p List.mem_cons_self
        rw [addPlace, hregistry, List.find?_cons_of_neg (by rw [← addPlace, hfirst, hnone]; simp)]

/-- A type has the type parameters of the first of its registered declarations. -/
theorem typeParams_ofTrees {trees : List SourceTree}
    (hids : ((DeclPlace.ofTrees trees).map (·.site.decl.id)).Nodup) (key : TypeKey) :
      ((ofTrees trees).registry.get? key).map (·.typeParams) =
      (((ofTrees trees).partsOf trees key).head?).map (·.site.decl.paramNames) := by
  have same := sameTypes_ofTrees trees
  rw [partsOf, List.head?_filter, same.declared, Registry.get?, same.types]
  exact typeParams_foldl_addPlace hids .empty (fun _ _ => rfl) key

end Registration

/-! ### Types that are names -/

/-- The name that a type is if it is a single one, without type arguments and without `alias::`. -/
def TypeSyntax.bareName? : TypeSyntax → Option String
  | .named ⟨none, [⟨name, []⟩], _⟩ => some name.name
  | _ => none

/-- The name of the type parameter that a type is. -/
def TypeRef.paramName? : TypeRef → Option String
  | .typeParam name => some name
  | _ => none

/-- The type that a field or a property is written with. -/
def MemberItem.type? : MemberItem → Option TypeSyntax
  | .field d _ => some d.type
  | .property d => some d.type
  | .method _ | .event _ _ | .nestedType _ _ => none

/-- A member has the type that the first element of its group is written with. -/
theorem MemberEntry.Tells.type?_eq {r : Registry} {w : WrittenMember} {more : List WrittenMember}
    {m : MemberEntry} (tells : Tells r (w :: more) m) {type : TypeSyntax} (h : w.item.type? = some type) :
    m.type? = some (Lookup.resolve r w.body.scope type) := by
  cases tells with
  | field b d v value? => cases h; rfl
  | property b d more several => cases h; rfl
  | method _ _ _ | event _ _ _ | nestedType _ _ _ _ => cases h

namespace Lookup

/-- A name is a type parameter exactly if a type around it has one of that name,
whatever else it may stand for. -/
theorem resolve_bareName_iff (r : Registry) (s : Scope) {type : TypeSyntax} {name : String}
    (h : type.bareName? = some name) : resolve r s type = .typeParam name ↔ isTypeParam r s name = true := by
  unfold TypeSyntax.bareName? at h
  split at h
  · rename_i ident span
    cases h
    rw [resolve, resolveNamed, typeParam?]
    dsimp only
    split
    · rename_i found hfound
      split at hfound
      · cases hfound
        exact ⟨fun _ => ‹_›, fun _ => rfl⟩
      · cases hfound
    · rename_i hnone
      split at hnone
      · cases hnone
      · exact ⟨(fun h => by cases h), fun h => absurd h ‹_›⟩
  · cases h

end Lookup

/-- The types around a point stay the same when namespaces are entered. -/
theorem Scope.types_enterPath (r : Registry) (usings : List UsingDirective) (path : List String)
    (s : Scope) :
    (Scope.enterPath r usings path s).1.types = s.types := by
  induction path generalizing s with
  | nil => rfl
  | cons name rest ih =>
      rw [Scope.enterPath]
      split
      · rfl
      · split
        · rfl
        · exact ih _

namespace FileScopes

theorem types_inSpaces (f : FileScopes) (top : Scope) (spaces : List NamespaceDecl) :
    (f.inSpaces top spaces).types = top.types := by
  unfold inSpaces
  induction spaces generalizing top with
  | nil => rfl
  | cons d rest ih => rw [List.foldl_cons, ih, Scope.types_enterPath]

/-- The types around a point in a declaration are the declared one and those that hold it. -/
theorem mem_types_inType (f : FileScopes) (t : SourceTree) (s : DeclSite) (key : TypeKey) :
    key ∈ (f.inType (f.atTop t) s).types ↔ key ∈ s.containerKeys ++ [s.key] := by
  have hfoldl : ∀ (keys : List TypeKey) (s : Scope),
      (keys.foldl Scope.enterType s).types = keys.reverse ++ s.types := by
    intro keys
    induction keys with
    | nil => exact fun _ => rfl
    | cons k rest ih =>
        intro s
        rw [List.foldl_cons, ih, List.reverse_cons, List.append_assoc]
        rfl
  rw [inType, hfoldl, types_inSpaces, show (f.atTop t).types = [] from rfl, List.append_nil,
    List.mem_reverse]

end FileScopes

/-! ### Compilations -/

/-- Where lists are related element by element, an element of the first has one of the second beside it. -/
theorem exists_mem_zip_of_forall₂ {α β : Type} {R : α → β → Prop} {list : List α} {list' : List β}
    (related : List.Forall₂ R list list') {a : α} (ha : a ∈ list) :
    ∃ b, (a, b) ∈ list.zip list' ∧ R a b := by
  induction related with
  | nil => cases ha
  | cons hab _ ih =>
      rcases List.mem_cons.1 ha with rfl | ha
      · exact ⟨_, List.mem_cons_self, hab⟩
      · obtain ⟨b, hmem, hb⟩ := ih ha
        exact ⟨b, List.mem_cons_of_mem _ hmem, hb⟩

namespace Compilation

variable {documents : List Document} {c : Compilation}

/-- What is written in the declarations of a type. -/
def written (c : Compilation) (key : TypeKey) : List WrittenMember :=
  (c.places.filter (·.site.key = key)).flatMap fun p => (c.bodyAt p).written c.declared

section

variable (built : build documents = .ok c)
include built

/-- All declarations with a key are registered under it. -/
theorem partsOf_of_build (key : TypeKey) :
    (Registration.ofTrees c.trees).partsOf c.trees key = c.places.filter (·.site.key = key) := by
  refine List.filter_congr fun p hp => ?_
  have hdeclared := declaredType?_of_mem_places built hp
  rw [declaredType?, (build_eq_ok built).2.2.2] at hdeclared
  rw [hdeclared]
  exact decide_eq_decide.2 Option.some_inj

theorem written_of_build (key : TypeKey) :
    (Registration.ofTrees c.trees).written c.trees key = c.written key := by
  rw [Registration.written, written, partsOf_of_build built, (build_eq_ok built).2.2.2]
  exact List.flatMap_congr fun p _ => by rw [bodyOf_of_build built]

/-- A name is a type parameter in a declaration exactly if the first declaration of the type, or of one of
those that hold it, has the name among its type parameters. -/
theorem isTypeParam_scopeAt_iff (p : DeclPlace) (name : String) :
    Lookup.isTypeParam c.registry (c.scopeAt p) name = true ↔ ∃ key ∈ p.site.containerKeys ++ [p.site.key],
      ∃ first, c.places.find? (·.site.key = key) = some first ∧ name ∈ first.site.decl.paramNames := by
  have hids : ((DeclPlace.ofTrees c.trees).map (·.site.decl.id)).Nodup := by
    rw [DeclPlace.ids_ofTrees]
    exact nodup_ids_of_build built
  have hparams : ∀ key, (c.registry.get? key).map (·.typeParams) =
      (c.places.find? (·.site.key = key)).map (·.site.decl.paramNames) := by
    intro key
    rw [← (alike_of_build built).map_get? (fun _ => rfl), Registration.typeParams_ofTrees hids,
      partsOf_of_build built, List.head?_filter]
  rw [Lookup.isTypeParam, List.any_eq_true]
  refine exists_congr fun key => and_congr (FileScopes.mem_types_inType _ _ _ _) ?_
  have hany : ((c.registry.get? key).any fun e => e.typeParams.contains name) =
      (((c.registry.get? key).map (·.typeParams)).any (·.contains name)) := by
    rw [Option.any_map]
  rw [hany, hparams, Option.any_map, Option.any_eq_true]
  simp only [List.contains_eq_mem, decide_eq_true_eq]

/-- A field, or a property that is not partial, whose type is written as a name, has an entry of its own.
The type of the entry is a type parameter exactly if the first declaration of the type that it is written in,
or the first of one of the types that hold that one, has the name among its type parameters.  So it is one if
the declaration has the name among its own and all declarations of the type have the same. -/
theorem typeParam_recorded_iff {p : DeclPlace} (hp : p ∈ c.places) {w : WrittenMember}
    (hw : w ∈ (c.bodyAt p).written c.declared) (alone : w.shared? = none) {type : TypeSyntax}
    (htype : w.item.type? = some type) {name : String} (hname : type.bareName? = some name) :
    ∃ e groups m, c.registry.get? p.site.key = some e ∧
      Grouping WrittenMember.shared? (c.written p.site.key) groups ∧ ([w], m) ∈ groups.zip e.members ∧
      (m.type? = some (.typeParam name) ↔ ∃ key ∈ p.site.containerKeys ++ [p.site.key],
        ∃ first, c.places.find? (·.site.key = key) = some first ∧ name ∈ first.site.decl.paramNames) ∧
      (name ∈ p.site.decl.paramNames →
        (∀ q ∈ c.places, q.site.key = p.site.key → q.site.decl.paramNames = p.site.decl.paramNames) →
        m.type? = some (.typeParam name)) := by
  have hids : ((DeclPlace.ofTrees c.trees).map (·.site.decl.id)).Nodup := by
    rw [DeclPlace.ids_ofTrees]
    exact nodup_ids_of_build built
  obtain ⟨e, he⟩ := Completion.exists_entry hids (build_eq_ok built).2.1 hp
  obtain ⟨groups, hgrouping, htold⟩ := Completion.members_told hids he
  rw [written_of_build built] at hgrouping
  have hmem : w ∈ c.written p.site.key :=
    List.mem_flatMap.2 ⟨p, List.mem_filter.2 ⟨hp, decide_eq_true rfl⟩, hw⟩
  obtain ⟨m, hzip, tells⟩ := exists_mem_zip_of_forall₂ htold (hgrouping.singleton_mem hmem alone)
  have hbody : w.body = c.bodyAt p := by
    obtain ⟨d, -, hd⟩ := List.mem_flatMap.1 hw
    obtain ⟨item, -, rfl⟩ := List.mem_map.1 hd
    rfl
  have hparam : m.type? = some (.typeParam name) ↔ ∃ key ∈ p.site.containerKeys ++ [p.site.key],
      ∃ first, c.places.find? (·.site.key = key) = some first ∧ name ∈ first.site.decl.paramNames := by
    rw [tells.type?_eq htype, hbody, (alike_of_build built).resolve, ← isTypeParam_scopeAt_iff built,
      ← Lookup.resolve_bareName_iff c.registry (c.scopeAt p) hname]
    exact Option.some_inj
  rw [← (build_eq_ok built).2.2.1] at he
  refine ⟨e, groups, m, he, hgrouping, hzip, hparam, fun hown same => hparam.2 ?_⟩
  have hsome : (c.places.find? (·.site.key = p.site.key)).isSome :=
    List.find?_isSome.2 ⟨p, hp, decide_eq_true rfl⟩
  obtain ⟨first, hfirst⟩ := Option.isSome_iff_exists.1 hsome
  have hkey : first.site.key = p.site.key := by simpa using List.find?_some hfirst
  refine ⟨p.site.key, List.mem_append_right _ List.mem_cons_self, first, hfirst, ?_⟩
  rwa [same first (List.mem_of_find?_eq_some hfirst) hkey]

end

/-! ### Sample files -/

/-- The type parameters of the declarations in documents, the name that the last member in the last of them
has as its type, and the members of its type with the type parameters that they have as theirs. -/
def lastName? (documents : List Document) : Option (List (List String) × String × List (Option String)) := do
  let c ← (build documents).toOption
  let p ← c.places.getLast?
  let w ← ((c.bodyAt p).written c.declared).getLast?
  let type ← w.item.type?
  let name ← type.bareName?
  let e ← c.registry.get? p.site.key
  if w.shared? = none then
    some (c.places.map (·.site.decl.paramNames), name, e.members.map fun m =>
      m.type?.bind TypeRef.paramName?)
  else none

theorem of_lastName?_eq_some {documents : List Document} {params : List (List String)} {name : String}
    {types : List (Option String)} (h : lastName? documents = some (params, name, types)) :
    ∃ c p w type e, build documents = .ok c ∧ p ∈ c.places ∧ w ∈ (c.bodyAt p).written c.declared ∧
      w.shared? = none ∧ w.item.type? = some type ∧ type.bareName? = some name ∧
      c.places.map (·.site.decl.paramNames) = params ∧ params.getLast? = some p.site.decl.paramNames ∧
      c.registry.get? p.site.key = some e ∧
      e.members.map (fun m => m.type?.bind TypeRef.paramName?) = types := by
  unfold lastName? at h
  obtain ⟨c, hbuild, h⟩ := Option.bind_eq_some_iff.1 h
  obtain ⟨p, hlast, h⟩ := Option.bind_eq_some_iff.1 h
  obtain ⟨w, hw, h⟩ := Option.bind_eq_some_iff.1 h
  obtain ⟨type, htype, h⟩ := Option.bind_eq_some_iff.1 h
  obtain ⟨written, hname, h⟩ := Option.bind_eq_some_iff.1 h
  obtain ⟨e, he, h⟩ := Option.bind_eq_some_iff.1 h
  split at h
  · rename_i alone
    cases h
    refine ⟨c, p, w, type, e, eq_ok_of_toOption hbuild, List.mem_of_getLast? hlast,
      List.mem_of_getLast? hw, alone, htype, hname, rfl, ?_, he, rfl⟩
    rw [List.getLast?_map, hlast]
    rfl
  · cases h

/-- In a class with a type parameter, a field has it as its type. -/
theorem typeParam_recorded_iff_namesake :
    ∃ c p m, build [⟨"a.cs", "class A<T>\x7bT x;\x7dclass B<T>\x7bT y;\x7d", .source⟩] = .ok c ∧
      p ∈ c.places ∧
      (∃ e, c.registry.get? p.site.key = some e ∧ m ∈ e.members) ∧ m.type? = some (.typeParam "T") := by
  obtain ⟨c, p, w, type, -, built, hp, hw, alone, htype, hname, hparams, hlast, -⟩ := of_lastName?_eq_some
    (show lastName? [⟨"a.cs", "class A<T>\x7bT x;\x7dclass B<T>\x7bT y;\x7d", .source⟩] =
      some ([["T"], ["T"]], "T", [some "T"]) by decide +kernel)
  have hsame : ∀ q ∈ c.places, q.site.decl.paramNames = ["T"] := fun q hq => by
    have hmem : q.site.decl.paramNames ∈ c.places.map (·.site.decl.paramNames) :=
      List.mem_map_of_mem (f := fun q : DeclPlace => q.site.decl.paramNames) hq
    rw [hparams] at hmem
    simpa using hmem
  obtain ⟨e, groups, m, he, -, hzip, -, htyped⟩ := typeParam_recorded_iff built hp hw alone htype hname
  refine ⟨c, p, m, built, hp, ⟨e, he, (List.of_mem_zip hzip).2⟩, htyped ?_ fun q hq _ => ?_⟩
  · rw [hsame p hp]
    exact List.mem_cons_self
  · rw [hsame q hq, hsame p hp]

/-- A class in two parts that call its type parameter by different names. -/
def renamedParam : List Document :=
  [⟨"a.cs", "partial class A<T>\x7bT x;\x7dpartial class A<U>\x7bU y;\x7d", .source⟩]

/-- The field in the second part has its own type parameter as its type, but no entry says so. -/
theorem typeParam_unrecorded_renamedParam :
    ∃ c p w type e, build renamedParam = .ok c ∧ p ∈ c.places ∧ p.site.decl.paramNames = ["U"] ∧
      w ∈ (c.bodyAt p).written c.declared ∧ w.shared? = none ∧ w.item.type? = some type ∧
      type.bareName? = some "U" ∧ c.registry.get? p.site.key = some e ∧
      ∀ m ∈ e.members, m.type? ≠ some (.typeParam "U") := by
  obtain ⟨c, p, w, type, e, built, hp, hw, alone, htype, hname, -, hlast, he, htypes⟩ := of_lastName?_eq_some
    (show lastName? renamedParam = some ([["T"], ["U"]], "U", [some "T", none]) by decide +kernel)
  refine ⟨c, p, w, type, e, built, hp, (Option.some.inj hlast).symm, hw, alone, htype, hname, he,
    fun m hm htyped => ?_⟩
  have hmem := List.mem_map_of_mem (f := fun m : MemberEntry => m.type?.bind TypeRef.paramName?) hm
  rw [htypes, htyped] at hmem
  simp [TypeRef.paramName?] at hmem

end Compilation

end Graft
