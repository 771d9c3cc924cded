/-
Module: Graft.Proofs.Program.Visits
Purpose: What holds of the tables of declared types after any visits.
Main exports: Tables.Ordered, Tables.Step.on_register, Tables.Follows, Tables.follows_step,
  Tables.exists_visits_ofTrees, Tables.Exact, Tables.exact_after

Visits may come in any order and fail.  What a visit does to the tables is what registration does to the
registry that the tables are of, and a visit that fails does nothing.  So all that is known of indexed
registries is known of the tables.
-/
import Graft.Program.Visits
import Graft.Proofs.Generator.Containers
import Graft.Proofs.Program.Indexed

namespace Graft

namespace Tables

variable {t : Tables}

/-! ### Operations as they run -/

namespace Step

/-- An operation goes on with what the first part of it answers, in the tables that this leaves. -/
theorem on_bind {α β : Type} (step : Step α) (next : α → Step β) (t : Tables) :
    on (step >>= next) t =
      match on step t with
      | (.ok a, u) => on (next a) u
      | (.error cause, u) => (.error cause, u) := by
  change ExceptT.bindCont next (on step t).1 (on step t).2 = _
  rcases on step t with ⟨_ | a, u⟩ <;> rfl

@[simp] theorem on_get_bind {β : Type} (next : Tables → Step β) (t : Tables) :
    on (get >>= next) t = on (next t) t := rfl

/-- A type is noted with its container if that is there, or else in its namespace. -/
theorem on_index (e : TypeEntry) (t : Tables) :
    on (index e) t =
      match e.container? with
      | some c =>
          if t.entries.contains c then
            (.ok (), { t with nested := t.nested.insert c (t.nestedTypes c ++ [e.key]) })
          else (.error .invalidNamespace, t)
      | none =>
          let made := t.spaces.createPath e.space
          (.ok (), { t with spaces := made.2.register made.1 e.name e.key }) := by
  rw [index]
  cases e.container? with
  | none => rfl
  | some c =>
      dsimp only
      rw [on_get_bind]
      split <;> rfl

/-- A new type is noted, and comes to the end of the order. -/
theorem on_register (e : TypeEntry) (t : Tables) :
    on (register e) t =
      if t.entries.contains e.key then (.error (.duplicateType e.qualified.display .nowhere), t)
      else
        match on (index e) t with
        | (.ok _, u) => (.ok (), { u with order := u.order ++ [e.key], entries := u.entries.insert e.key e })
        | (.error cause, u) => (.error cause, u) := by
  rw [register, on_get_bind]
  split
  · rfl
  · rw [on_bind]
    rcases on (index e) t with ⟨_ | _, u⟩ <;> rfl

/-- A type that cannot be registered leaves the tables as they are. -/
theorem on_register_of_error {e : TypeEntry} {cause : RegistrationError}
    (h : (on (register e) t).1 = .error cause) :
    (on (register e) t).2 = t := by
  rw [on_register, on_index] at h ⊢
  split
  · rfl
  · rename_i new
    rw [if_neg new] at h
    cases hc : e.container? with
    | none =>
        rw [hc] at h
        cases h
    | some c =>
        rw [hc] at h
        dsimp only at h ⊢
        by_cases held : t.entries.contains c
        · rw [if_pos held] at h
          cases h
        · rw [if_neg held]

end Step

/-! ### Tables and registries -/

/-- The order has every key once. -/
structure Ordered (t : Tables) : Prop where
  nodup : t.order.Nodup
  mem : ∀ key, key ∈ t.order ↔ (t.entries.get? key).isSome

namespace Ordered

theorem empty : Tables.empty.Ordered :=
  ⟨.nil, fun _ => iff_of_false (fun h => nomatch h) (fun h => nomatch h)⟩

variable (ordered : t.Ordered)
include ordered

theorem keys_registry : t.registry.types.keys = t.order := by
  have hall : ∀ order : List TypeKey, (∀ key ∈ order, (t.entries.get? key).isSome) →
      (order.filterMap fun key => (t.entries.get? key).map (key, ·)).map Prod.fst = order := by
    intro order
    induction order with
    | nil => exact fun _ => rfl
    | cons key rest ih =>
        intro there
        obtain ⟨e, he⟩ := Option.isSome_iff_exists.1 (there key List.mem_cons_self)
        rw [List.filterMap_cons, he, Option.map_some, List.map_cons,
          ih fun other hother => there other (List.mem_cons_of_mem _ hother)]
  exact hall t.order fun key hkey => (ordered.mem key).1 hkey

/-- A key stands for one type in the tables and in the registry. -/
theorem get?_registry (key : TypeKey) : t.registry.get? key = t.entries.get? key := by
  refine Option.ext fun e => ?_
  have nodup : t.registry.types.keys.Nodup := ordered.keys_registry ▸ ordered.nodup
  rw [Registry.get?, Assoc.get?_eq_some_iff nodup, Tables.registry, List.mem_filterMap]
  constructor
  · rintro ⟨other, -, hentry⟩
    obtain ⟨e', he', heq⟩ := Option.map_eq_some_iff.1 hentry
    obtain ⟨rfl, rfl⟩ := Prod.mk.inj heq
    exact he'
  · exact fun he => ⟨key, (ordered.mem key).2 (Option.isSome_of_eq_some he), by rw [he, Option.map_some]⟩

/-- A new key comes last. -/
theorem append (key : TypeKey) (e : TypeEntry) (new : t.entries.get? key = none)
    (nested : Assoc TypeKey (List TypeKey)) (spaces : NamespaceTree) :
    Ordered ⟨t.entries.insert key e, t.order ++ [key], nested, spaces⟩ ∧
      registry ⟨t.entries.insert key e, t.order ++ [key], nested, spaces⟩ =
        ⟨t.registry.types.insert key e, nested, spaces⟩ := by
  have hnew : key ∉ t.order := fun hmem => by
    have hsome := (ordered.mem key).1 hmem
    rw [new] at hsome
    cases hsome
  refine ⟨⟨ordered.nodup.append (List.nodup_singleton _) (List.disjoint_singleton.2 hnew),
    fun other => ?_⟩, ?_⟩
  · rw [List.mem_append, List.mem_singleton, Assoc.get?_insert, ordered.mem]
    by_cases hkey : other = key
    · simp [hkey]
    · simp [hkey]
  · have hothers : ∀ other ∈ t.order, ((t.entries.insert key e).get? other).map (other, ·) =
        (t.entries.get? other).map (other, ·) := by
      intro other hother
      rw [Assoc.get?_insert, if_neg (show other ≠ key from fun hkey => hnew (hkey ▸ hother))]
    have htypes : (t.registry.types.insert key e).entries = t.registry.types.entries ++ [(key, e)] :=
      Assoc.entries_insert_of_not_mem (ordered.keys_registry.symm ▸ hnew) e
    rw [registry, List.filterMap_append, List.filterMap_congr hothers]
    simp only [List.filterMap_cons, List.filterMap_nil, Assoc.get?_insert, if_true, Option.map_some]
    exact congrArg (Registry.mk · nested spaces) (congrArg Assoc.mk htypes.symm)

/-- A type that is there is changed in its place. -/
theorem insert {key : TypeKey} {e : TypeEntry} (there : t.entries.get? key = some e) (e' : TypeEntry) :
    Ordered { t with entries := t.entries.insert key e' } ∧
      registry { t with entries := t.entries.insert key e' } =
        { t.registry with types := t.registry.types.insert key e' } := by
  refine ⟨⟨ordered.nodup, fun other => ?_⟩, ?_⟩
  · rw [Assoc.get?_insert, ordered.mem]
    split
    · rename_i hkey
      simp [hkey, there]
    · rfl
  · have hput : ∀ order : List TypeKey, order.Nodup →
        (∀ other ∈ order, (t.entries.get? other).isSome) → key ∈ order →
        (order.filterMap fun other => ((t.entries.insert key e').get? other).map (other, ·)) =
          Assoc.put key e' (order.filterMap fun other => (t.entries.get? other).map (other, ·)) := by
      intro order
      induction order with
      | nil => exact fun _ _ hmem => nomatch hmem
      | cons first rest ih =>
          intro nodup all hmem
          obtain ⟨hfirst, nodup⟩ := List.nodup_cons.1 nodup
          obtain ⟨old, hold⟩ := Option.isSome_iff_exists.1 (all first List.mem_cons_self)
          have hall : ∀ other ∈ rest, (t.entries.get? other).isSome := fun other hother =>
            all other (List.mem_cons_of_mem _ hother)
          rw [List.filterMap_cons, List.filterMap_cons, Assoc.get?_insert, hold]
          by_cases hkey : first = key
          · subst hkey
            have hothers : ∀ other ∈ rest, ((t.entries.insert first e').get? other).map (other, ·) =
                (t.entries.get? other).map (other, ·) := by
              intro other hother
              rw [Assoc.get?_insert, if_neg (show other ≠ first from fun hkey => hfirst (hkey ▸ hother))]
            rw [if_pos rfl, Option.map_some, Option.map_some, Assoc.put, if_pos rfl,
              List.filterMap_congr hothers]
          · have hrest : key ∈ rest := (List.mem_cons.1 hmem).resolve_left (Ne.symm hkey)
            rw [if_neg hkey, Option.map_some, ih nodup hall hrest, Assoc.put, if_neg hkey]
    have hkey : key ∈ t.order := (ordered.mem key).2 (Option.isSome_of_eq_some there)
    exact congrArg (Registry.mk · t.nested t.spaces)
      (congrArg Assoc.mk (hput t.order ordered.nodup (fun other => (ordered.mem other).1) hkey))

end Ordered

/-- An operation on tables comes to what a function makes of the registry.  If it fails the
tables are as they were. -/
def Follows (t : Tables) (outcome : Except RegistrationError Unit × Tables) :
    Except RegistrationError Registry → Prop
  | .ok r => outcome.1 = .ok () ∧ outcome.2.Ordered ∧ outcome.2.registry = r
  | .error cause => outcome = (.error cause, t)

theorem follows_register (ordered : t.Ordered) (e : TypeEntry) :
    t.Follows (Step.on (Step.register e) t) (t.registry.register e) := by
  rw [Step.on_register, Step.on_index, Registry.register, ordered.get?_registry, Assoc.contains]
  by_cases there : (t.entries.get? e.key).isSome
  · rw [if_pos there, if_pos there]
    rfl
  · have new : t.entries.get? e.key = none := by simpa using there
    rw [if_neg there, if_neg there]
    cases hc : e.container? with
    | none =>
        dsimp only
        obtain ⟨hordered, hregistry⟩ := ordered.append e.key e new t.nested
          ((t.spaces.createPath e.space).2.register (t.spaces.createPath e.space).1 e.name e.key)
        exact ⟨rfl, hordered, hregistry⟩
    | some c =>
        dsimp only
        rw [ordered.get?_registry, Assoc.contains]
        by_cases held : (t.entries.get? c).isSome
        · rw [if_pos held, if_neg (by simpa [Option.isSome_iff_ne_none] using held)]
          obtain ⟨hordered, hregistry⟩ :=
            ordered.append e.key e new (t.nested.insert c (t.nestedTypes c ++ [e.key])) t.spaces
          exact ⟨rfl, hordered, hregistry⟩
        · rw [if_neg held, if_pos (by simpa using held)]
          rfl

/-- A visit of a declaration does what placing it does. -/
theorem follows_declare (ordered : t.Ordered) (origin : Origin) (s : DeclSite) :
    t.Follows (Step.on (Step.declare origin s) t) (Registration.place t.registry origin s) := by
  rw [Step.declare, Step.on_get_bind, Registration.place, ordered.get?_registry]
  cases he : t.entries.get? s.key with
  | none => exact follows_register ordered _
  | some e =>
      dsimp only
      split
      · obtain ⟨hordered, hregistry⟩ := ordered.insert he (e.withPart s.decl)
        refine ⟨rfl, hordered, hregistry.trans ?_⟩
        rw [Registry.modify, ordered.get?_registry, he]
      · rfl

end Tables

/-! ### Any visits -/

/-- What a visit makes of a registry. -/
def Visit.result (r : Registry) : Visit → Except RegistrationError Registry
  | space path => .ok (r.createSpace path)
  | type origin s => Registration.place r origin s

/-- The visited declaration is in one of the trees. -/
def Visit.Of (trees : List SourceTree) : Visit → Prop
  | space _ => True
  | type _ s => s ∈ trees.flatMap (·.sites)

namespace Tables

variable {t : Tables}

/-- A visit does to the tables what registration does to the registry. -/
theorem follows_step (ordered : t.Ordered) (visit : Visit) :
    t.Follows (Step.on visit.step t) (visit.result t.registry) := by
  cases visit with
  | space path => exact ⟨rfl, ⟨ordered.nodup, ordered.mem⟩, rfl⟩
  | type origin s => exact follows_declare ordered origin s

theorem after_concat (visits : List Visit) (visit : Visit) :
    after (visits ++ [visit]) = (Step.on visit.step (after visits)).2 := by
  rw [after, List.foldl_append]
  rfl

/-- After a visit the registry is what the visit has made of it, or as it was if the visit has failed. -/
theorem ordered_step (ordered : t.Ordered) (visit : Visit) :
    (Step.on visit.step t).2.Ordered ∧
      (Step.on visit.step t).2.registry = (visit.result t.registry).toOption.getD t.registry := by
  have follows := follows_step ordered visit
  revert follows
  cases visit.result t.registry with
  | error cause =>
      intro follows
      rw [show Step.on visit.step t = (.error cause, t) from follows]
      exact ⟨ordered, rfl⟩
  | ok r => exact fun ⟨_, hordered, hregistry⟩ => ⟨hordered, hregistry⟩

/-- What holds of the empty registry, and is kept by namespaces, by new types and by further parts of types,
holds after any visits. -/
theorem induction_after {P : Registry → Prop} {trees : List SourceTree} (start : P .empty)
    (space : ∀ r path, P r → P (r.createSpace path))
    (type : ∀ s ∈ trees.flatMap (·.sites), ∀ origin r r', P r →
      r.register (s.newEntry origin) = .ok r' → P r')
    (part : ∀ r key d, P r → P (r.modify key (·.withPart d))) {visits : List Visit}
    (of : ∀ visit ∈ visits, visit.Of trees) : (after visits).Ordered ∧ P (after visits).registry := by
  induction visits using List.reverseRecOn with
  | nil => exact ⟨.empty, start⟩
  | append_singleton visits visit ih =>
      obtain ⟨ordered, holds⟩ := ih fun other h => of other (List.mem_append_left _ h)
      have hof : visit.Of trees := of visit (List.mem_append_right _ (List.mem_singleton_self visit))
      obtain ⟨hordered, hregistry⟩ := ordered_step ordered visit
      rw [after_concat]
      refine ⟨hordered, hregistry ▸ ?_⟩
      cases hresult : visit.result (after visits).registry with
      | error _ => exact holds
      | ok r =>
          cases visit with
          | space path =>
              cases hresult
              exact space _ path holds
          | type origin s =>
              rcases Registration.place_cases hresult with hregister | rfl
              · exact type s hof origin _ r holds hregister
              · exact part _ _ _ holds

/-- The types of trees come from visits of their namespaces and declarations. -/
theorem exists_visits_ofTrees (trees : List SourceTree) :
    ∃ visits : List Visit, (∀ visit ∈ visits, visit.Of trees) ∧
      (after visits).registry = (Registration.ofTrees trees).registry := by
  let Reached (r : Registry) : Prop := ∃ visits : List Visit, (∀ visit ∈ visits, visit.Of trees) ∧
    (after visits).Ordered ∧ (after visits).registry = r
  suffices h : Reached (Registration.ofTrees trees).registry from h.imp fun _ h => ⟨h.1, h.2.2⟩
  have next : ∀ (visit : Visit) (r r' : Registry), visit.Of trees → Reached r → visit.result r = .ok r' →
      Reached r' := by
    rintro visit r r' hof ⟨visits, of, ordered, rfl⟩ hr
    obtain ⟨hordered, hregistry⟩ := ordered_step ordered visit
    rw [hr] at hregistry
    refine ⟨visits ++ [visit], fun other h => ?_, after_concat visits visit ▸ hordered,
      after_concat visits visit ▸ hregistry⟩
    rcases List.mem_append.1 h with h | h
    · exact of other h
    · exact List.mem_singleton.1 h ▸ hof
  refine Registration.induction_ofTrees (P := fun g => Reached g.registry)
    ⟨[], fun _ h => (List.not_mem_nil h).elim, .empty, rfl⟩
    (fun g path hg => next (.space path) _ _ trivial hg rfl) ?_
  intro tree htree s hs g hg
  rw [Registration.add]
  split
  · cases hplace : Registration.place g.registry tree.origin s with
    | error cause => exact hg
    | ok r => exact next (.type tree.origin s) _ _ (List.mem_flatMap.2 ⟨tree, htree, hs⟩) hg hplace
  · exact hg

/-! ### Exact tables -/

/-- The tables agree with one another: a type is found by its key, in the order, and where it belongs, and is
found nowhere else. -/
structure Exact (t : Tables) : Prop where
  /-- The order has exactly the keys of the types, each once. -/
  order : t.order.Nodup ∧ ∀ key, key ∈ t.order ↔ (t.entries.get? key).isSome
  key : ∀ key e, t.entries.get? key = some e → e.key = key
  /-- A nested type is once in the list of its container, which is registered, and is in no other
  list and in no namespace. -/
  nested : ∀ key e c, t.entries.get? key = some e → e.container? = some c →
    (t.entries.get? c).isSome ∧ (∀ d, (t.nestedTypes d).count key = if d = c then 1 else 0) ∧
      (∀ home name, key ∉ t.spaces.typesNamed home name) ∧ t.spaces.homeOf? key = none
  /-- A type that is nested in none is once under its name in its namespace, and nowhere else. -/
  top : ∀ key e, t.entries.get? key = some e → e.container? = none →
    ∃ home, t.spaces.find? e.space = some home ∧ t.spaces.homeOf? key = some home ∧
      (∀ other name,
        (t.spaces.typesNamed other name).count key = if other = home ∧ name = e.name then 1 else 0) ∧
      ∀ c, key ∉ t.nestedTypes c
  /-- The lists and namespaces hold registered types only. -/
  registered : ∀ key, ((∃ c, key ∈ t.nestedTypes c) ∨ (∃ home name, key ∈ t.spaces.typesNamed home name) ∨
    (t.spaces.homeOf? key).isSome) → (t.entries.get? key).isSome
  findNested? : ∀ c name arity key, t.registry.findNested? c name arity = some key ↔
    ∃ e, t.entries.get? key = some e ∧ e.container? = some c ∧ e.name = name ∧ e.arity = arity
  findIn? : ∀ home name arity key, t.registry.findIn? home name arity = some key ↔
    ∃ e, t.entries.get? key = some e ∧ e.container? = none ∧ t.spaces.find? e.space = some home ∧
      e.name = name ∧ e.arity = arity
  /-- No chain of types around a type is endless. -/
  finite : WellFounded fun c key => ∃ e, t.entries.get? key = some e ∧ e.container? = some c
  displayName? : ∀ key, t.registry.displayName? key = (t.entries.get? key).map fun e =>
    Registry.appendSegment ((e.container?.bind t.registry.displayName?).getD (".".intercalate e.space))
      e.header
  /-- The headers around a type are those around the type that holds it, and that one's. -/
  containerHeaders : ∀ m : SourceModel, m.entry? = t.entries.get? → ∀ key e, t.entries.get? key = some e →
    m.containerHeaders e =
      ((e.container?.bind t.entries.get?).map fun holder =>
        m.containerHeaders holder ++ [holder.partialHeader]).getD []

variable {trees : List SourceTree} {sites : List DeclSite}

/-- After visits the registry is indexed, and its types come from the visited declarations. -/
theorem indexed_after {visits : List Visit} (of : ∀ visit ∈ visits, visit.Of trees) :
    (after visits).Ordered ∧ (after visits).registry.Indexed ∧
      (after visits).registry.From (trees.flatMap (·.sites)) :=
  induction_after (P := fun r => r.Indexed ∧ r.From (trees.flatMap fun t : SourceTree => t.sites))
    ⟨.empty, .empty⟩ (fun _ path hr => ⟨hr.1.createSpace path, hr.2.createSpace path⟩)
    (fun _ hs _ _ _ hr h => ⟨hr.1.register h, hr.2.register hs h⟩)
    (fun _ key d hr => ⟨hr.1.modify key fun e => e.bare_withPart d, hr.2.modify key fun e =>
    e.bare_withPart d⟩) of

theorem exact_of_indexed (ordered : t.Ordered) (indexed : t.registry.Indexed) (hr : t.registry.From sites)
    (closed : DeclSite.Closed sites) : t.Exact := by
  have hget := ordered.get?_registry
  have distinct := hr.distinct closed
  have hholds : ∀ c key, t.registry.Holds c key ↔ ∃ e, t.entries.get? key = some e ∧
      e.container? = some c := by
    intro c key
    rw [Registry.Holds, hget]
  have hsame : (fun c key => ∃ e, t.entries.get? key = some e ∧ e.container? = some c) = t.registry.Holds :=
    funext fun c => funext fun key => propext (hholds c key).symm
  have hnested : ∀ c key, key ∈ t.nestedTypes c ↔ t.registry.Holds c key := indexed.mem_nestedTypes
  have htyped : ∀ home name key, key ∈ t.spaces.typesNamed home name ↔ t.registry.Stands home name key :=
    fun home name key => NamespaceTree.mem_typesNamed.trans (indexed.mem_residents home name key)
  exact {
    order := ⟨ordered.nodup, ordered.mem⟩
    key := fun key e he => indexed.key key e ((hget key).trans he)
    nested := fun key e c he hc => by
      have hkey : t.registry.Holds c key := (hholds c key).2 ⟨e, he, hc⟩
      refine ⟨hget c ▸ hr.container key e c ((hget key).trans he) hc, fun d => ?_,
        fun home name hmem => ?_, ?_⟩
      · have nodup : (t.nestedTypes d).Nodup := indexed.nodup_nestedTypes d
        rw [nodup.count]
        refine if_congr ((hnested d key).trans ⟨fun hd => hd.unique hkey, fun hd => hd ▸ hkey⟩) rfl rfl
      · exact ((htyped home name key).1 hmem).not_holds hkey
      · refine Option.eq_none_iff_forall_ne_some.2 fun home hhome => ?_
        obtain ⟨name, hstands⟩ := (indexed.home home key).1 hhome
        exact hstands.not_holds hkey
    top := fun key e he hnone => by
      obtain ⟨home, hhome⟩ := Option.isSome_iff_exists.1 (indexed.housed key e ((hget key).trans he) hnone)
      have hkey : t.registry.Stands home e.name key := ⟨e, (hget key).trans he, hnone, rfl, hhome⟩
      refine ⟨home, hhome, (indexed.home home key).2 ⟨e.name, hkey⟩, fun other name => ?_, fun c hmem => ?_⟩
      · have nodup : (t.spaces.typesNamed other name).Nodup :=
          NamespaceTree.nodup_typesNamed indexed.nodup_residents other name
        rw [nodup.count]
        refine if_congr ((htyped other name key).trans ⟨fun hother => hother.unique hkey, ?_⟩) rfl rfl
        rintro ⟨rfl, rfl⟩
        exact hkey
      · exact hkey.not_holds ((hnested c key).1 hmem)
    registered := by
      have hentry : ∀ {key e}, t.registry.get? key = some e → (t.entries.get? key).isSome :=
        fun {key e} he => Option.isSome_of_eq_some ((hget key).symm.trans he)
      rintro key (⟨c, hmem⟩ | ⟨home, name, hmem⟩ | hhome)
      · obtain ⟨e, he, -⟩ := (hnested c key).1 hmem
        exact hentry he
      · obtain ⟨e, he, -⟩ := (htyped home name key).1 hmem
        exact hentry he
      · obtain ⟨home, hhome⟩ := Option.isSome_iff_exists.1 hhome
        obtain ⟨name, e, he, -⟩ := (indexed.home home key).1 hhome
        exact hentry he
    findNested? := fun c name arity key => by
      rw [indexed.findNested?_eq_some_iff distinct, hget]
    findIn? := fun home name arity key => by
      rw [indexed.findIn?_eq_some_iff distinct, hget]
      rfl
    finite := hsame ▸ indexed.wellFounded_holds
    displayName? := fun key => by
      rw [← hget, indexed.displayName?_eq hr]
    containerHeaders := fun m model key e he => by
      have contained : m.Contained := by
        rw [SourceModel.Contained, model, hsame]
        exact indexed.wellFounded_holds
      cases hc : e.container? with
      | none => exact SourceModel.containerHeaders_of_top hc
      | some c =>
          obtain ⟨holder, hholder⟩ :=
            Option.isSome_iff_exists.1 (hr.container key e c ((hget key).trans he) hc)
          have hholder : t.entries.get? c = some holder := (hget c).symm.trans hholder
          rw [Option.bind_some, hholder]
          exact contained.containerHeaders_within hc (model ▸ hholder) }

/-- After visits of declarations in any trees the tables are exact, whether the visits have failed or not, if
no two of the full names have one digest; and a type that cannot be registered leaves all tables as they
are. -/
theorem exact_after (trees : List SourceTree)
    (distinct : ∀ s ∈ trees.flatMap (·.sites), ∀ u ∈ trees.flatMap (·.sites), s.key = u.key →
      s.identity = u.identity)
    (visits : List Visit) (of : ∀ visit ∈ visits, visit.Of trees) :
    (after visits).Exact ∧ ∀ (t : Tables) (e : TypeEntry) (cause : RegistrationError),
      (Step.on (Step.register e) t).1 = .error cause → (Step.on (Step.register e) t).2 = t := by
  refine ⟨?_, fun t e cause h => Step.on_register_of_error h⟩
  obtain ⟨ordered, indexed, hr⟩ := indexed_after of
  exact exact_of_indexed ordered indexed hr (DeclSite.closed_sites distinct)

/-! ### Sample visits -/

/-- The declarations of a tree are visited from the last one to the first one, and then in their order. -/
def bothWays (t : SourceTree) : List Visit := (t.sites.reverse ++ t.sites).map (.type t.origin)

/-- Whether the full names in a text have digests of their own, and the order of
its types after both ways. -/
def bothWays? (text : String) : Option (Bool × List TypeKey) :=
  (SourceTree.parse ⟨0⟩ ⟨"a.cs", text, .source⟩).toOption.map fun t =>
    (decide (∀ s ∈ t.sites, ∀ u ∈ t.sites, s.key = u.key → s.identity = u.identity),
      (after (bothWays t)).order)

theorem of_bothWays?_eq_some {text : String} {order : List TypeKey}
    (h : bothWays? text = some (true, order)) :
    ∃ t, SourceTree.parse ⟨0⟩ ⟨"a.cs", text, .source⟩ = .ok t ∧
      (∀ s ∈ t.sites, ∀ u ∈ t.sites, s.key = u.key → s.identity = u.identity) ∧
      (after (bothWays t)).order = order := by
  unfold bothWays? at h
  cases hparse : SourceTree.parse ⟨0⟩ ⟨"a.cs", text, .source⟩ with
  | error e =>
      rw [hparse] at h
      cases h
  | ok t =>
      rw [hparse] at h
      obtain ⟨hdistinct, horder⟩ := Prod.mk.inj (Option.some.inj h)
      exact ⟨t, rfl, of_decide_eq_true hdistinct, horder⟩

/-- A generic class with a class in it, and two classes of one name. -/
def heldClass : String :=
  "namespace N\x7bclass A<T>\x7bclass B\x7b\x7d\x7dclass A\x7b\x7dclass A\x7b\x7d\x7d"

/-- The inner class is visited before the one that holds it, which fails, and every class is declared again
later; the tables are exact. -/
theorem exact_after_heldClass :
    ∃ t, SourceTree.parse ⟨0⟩ ⟨"a.cs", heldClass, .source⟩ = .ok t ∧
      (after (bothWays t)).order = [.ofName "N.A", .ofName "N.A`1", .ofName "N.A`1.B"] ∧
      (after (bothWays t)).Exact := by
  obtain ⟨t, hparse, distinct, horder⟩ := of_bothWays?_eq_some
    (show bothWays? heldClass =
    some (true, [.ofName "N.A", .ofName "N.A`1", .ofName "N.A`1.B"]) by decide +kernel)
  have hsites : [t].flatMap (·.sites) = t.sites := List.append_nil _
  refine ⟨t, hparse, horder, (exact_after [t] (hsites ▸ distinct) (bothWays t) fun visit hvisit => ?_).1⟩
  obtain ⟨s, hs, rfl⟩ := List.mem_map.1 hvisit
  have hmem : s ∈ t.sites := (List.mem_append.1 hs).elim List.mem_reverse.1 id
  exact List.mem_flatMap.2 ⟨t, List.mem_singleton_self t, hmem⟩

end Tables

end Graft
