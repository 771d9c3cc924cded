/-
Module: Graft.Proofs.Program.Consistency
Purpose: Which declarations can be registered together, and what they are registered as.
Main exports: Registration.SameTypes, Registration.Registers, Registration.tally_eq,
  Registration.errors_eq_nil_iff_consistent

Declarations are registered one after the other, and each is compared with what those before it have
left.  `Registers` says what that is: of every key the kind, the origin and the modifiers of all
declarations with the key, taken together.  A declaration agrees with this exactly if it agrees with
each of them, so the order of the declarations does not matter.
-/
import Mathlib.Data.List.Dedup
import Graft.Proofs.Program.Summary

namespace Graft

/-! ### Registration, declaration by declaration -/

/-- Whether a type can be registered, and what are the types then, is a matter of the types alone. -/
theorem Registry.types_register (r : Registry) (e : TypeEntry) :
    (r.register e).map (·.types) =
      if (r.types.get? e.key).isSome then .error (.duplicateType e.qualified.display .nowhere)
      else if e.container?.any fun c => (r.types.get? c).isNone then .error .invalidNamespace
      else .ok (r.types.insert e.key e) := by
  rw [register, get?]
  split
  · rfl
  · cases e.container? with
    | none => rfl
    | some c =>
        dsimp only
        rw [get?, Option.any_some]
        split <;> rfl

/-- A type with a new key is registered if the type that holds it is. -/
theorem Registry.register_of_new {r : Registry} {e : TypeEntry} (new : r.get? e.key = none)
    (held : ∀ c, e.container? = some c → (r.get? c).isSome) :
    ∃ r', r.register e = .ok r' ∧ r'.types = r.types.insert e.key e := by
  have hnew : ¬(r.types.get? e.key).isSome := by
    rw [← get?, new]
    exact Bool.false_ne_true
  have hheld : ¬(e.container?.any fun c => (r.types.get? c).isNone) := by
    intro h
    obtain ⟨c, hc, hnone⟩ := (Option.any_eq_true _ _).1 h
    have hsome := held c hc
    rw [get?, Option.isSome_iff_ne_none] at hsome
    exact hsome (Option.isNone_iff_eq_none.1 hnone)
  have htypes := r.types_register e
  rw [if_neg hnew, if_neg hheld] at htypes
  cases hregister : r.register e with
  | error cause =>
      rw [hregister] at htypes
      cases htypes
  | ok r' =>
      rw [hregister] at htypes
      exact ⟨r', rfl, Except.ok.inj htypes⟩

theorem Registry.types_modify (r : Registry) (key : TypeKey) (f : TypeEntry → TypeEntry) :
    (r.modify key f).types = ((r.types.get? key).map fun e => r.types.insert key (f e)).getD r.types := by
  rw [modify, get?]
  cases r.types.get? key <;> rfl

namespace Registration

/-- Register a declaration of a tree. -/
def addPlace (g : Registration) (p : DeclPlace) : Registration := g.add p.tree.origin p.site

/-- Two registrations have the same types and declarations, and the same errors.  Their namespaces may
differ. -/
structure SameTypes (g g' : Registration) : Prop where
  types : g.registry.types = g'.registry.types
  declared : g.declared = g'.declared
  errors : g.errors = g'.errors

/-- Whether a declaration has a place is a matter of the types alone. -/
theorem types_place {r r' : Registry} (same : r.types = r'.types) (origin : Origin) (s : DeclSite) :
    (place r origin s).map (·.types) = (place r' origin s).map (·.types) := by
  rw [place, place, Registry.get?, Registry.get?, same]
  cases r'.types.get? s.key with
  | none =>
      dsimp only
      rw [Registry.types_register, Registry.types_register, same]
  | some e =>
      dsimp only
      split
      · simp only [Except.map, Registry.types_modify, same]
      · rfl

namespace SameTypes

variable {g g' g'' : Registration}

theorem trans (same : SameTypes g g') (same' : SameTypes g' g'') : SameTypes g g'' :=
  ⟨same.types.trans same'.types, same.declared.trans same'.declared, same.errors.trans same'.errors⟩

theorem addPlace (same : SameTypes g g') (p : DeclPlace) : SameTypes (g.addPlace p) (g'.addPlace p) := by
  have hopen : g.isOpen p.site = g'.isOpen p.site := by rw [isOpen, isOpen, same.declared]
  have hplace := types_place same.types p.tree.origin p.site
  rw [Registration.addPlace, Registration.addPlace, add, add, hopen]
  split
  · cases h : place g.registry p.tree.origin p.site with
    | ok r =>
        cases h' : place g'.registry p.tree.origin p.site with
        | ok r' =>
            rw [h, h'] at hplace
            exact ⟨Except.ok.inj hplace, congrArg (·.insert p.site.decl.id p.site.key) same.declared,
              same.errors⟩
        | error e =>
            rw [h, h'] at hplace
            cases hplace
    | error e =>
        cases h' : place g'.registry p.tree.origin p.site with
        | ok r' =>
            rw [h, h'] at hplace
            cases hplace
        | error e' =>
            rw [h, h'] at hplace
            obtain rfl := Except.error.inj hplace
            exact ⟨same.types, same.declared, congrArg (· ++ [e]) same.errors⟩
  · exact same

theorem foldl (same : SameTypes g g') (places : List DeclPlace) :
    SameTypes (places.foldl Registration.addPlace g) (places.foldl Registration.addPlace g') := by
  induction places generalizing g g' with
  | nil => exact same
  | cons p rest ih => exact ih (same.addPlace p)

end SameTypes

/-- New namespaces leave types, declarations and errors as they are. -/
theorem sameTypes_addSpaces (g : Registration) (t : SourceTree) :
    SameTypes { g with registry := addSpaces g.registry t } g := by
  have htypes : ∀ (chains : List (List NamespaceDecl)) (r : Registry),
      (chains.foldl (fun r chain => r.createSpace (chain.flatMap (·.path))) r).types = r.types := by
    intro chains
    induction chains with
    | nil => exact fun _ => rfl
    | cons chain rest ih => exact fun r => ih _
  exact ⟨htypes t.chains g.registry, rfl, rfl⟩

/-- Trees are registered like their declarations in order. -/
theorem sameTypes_ofTrees (trees : List SourceTree) :
    SameTypes (ofTrees trees) ((DeclPlace.ofTrees trees).foldl addPlace .empty) := by
  have hrun : ∀ g g' : Registration, SameTypes g g' →
      SameTypes (trees.foldl addTree g) ((DeclPlace.ofTrees trees).foldl addPlace g') := by
    induction trees with
    | nil => exact fun _ _ same => same
    | cons t rest ih =>
        intro g g' same
        rw [List.foldl_cons, DeclPlace.ofTrees, List.flatMap_cons, List.foldl_append]
        refine ih _ _ ?_
        have htree := ((sameTypes_addSpaces g t).trans same).foldl (t.sites.map (⟨t, ·⟩))
        rw [List.foldl_map] at htree
        exact htree
  exact hrun .empty .empty ⟨rfl, rfl, rfl⟩

/-! ### What is left of the declarations so far -/

/-- What the registration of declarations leaves if it is without errors: any two declarations fit, the
types are those of their keys, each with what all declarations with the key say together, and every
declaration is registered with its own key. -/
structure Registers (done : List DeclPlace) (g : Registration) : Prop where
  errors : g.errors = []
  fits : done.Pairwise DeclPlace.Fits
  types : ∀ key, (g.registry.get? key).map TypeEntry.summary =
    TypeSummary.ofParts ((DeclPlace.withKey done key).map (·.summary))
  keys : g.registry.types.keys.Nodup
  declared : g.declared.entries = done.map fun p => (p.site.decl.id, p.site.key)

/-- The types around a declaration are among those declared so far. -/
structure Enclosed (done : List DeclPlace) (p : DeclPlace) : Prop where
  containers : ∀ d ∈ p.site.containers, ∃ q ∈ done, q.site.decl = d
  container : ∀ key, p.site.container? = some key → ∃ q ∈ done, q.site.key = key

namespace Registers

variable {done : List DeclPlace} {g : Registration} {p : DeclPlace}

theorem empty : Registers [] .empty where
  errors := rfl
  fits := .nil
  types _ := rfl
  keys := List.nodup_nil
  declared := rfl

/-- Any two declarations with one key agree. -/
theorem agree (h : Registers done g) (key : TypeKey) :
    ((DeclPlace.withKey done key).map (·.summary)).Pairwise TypeSummary.Agrees := by
  rw [List.pairwise_map]
  refine (h.fits.filter _).imp_of_mem fun {q r} hq hr hfits => hfits ?_
  have hqkey := (List.mem_filter.1 hq).2
  have hrkey := (List.mem_filter.1 hr).2
  rw [decide_eq_true_eq] at hqkey hrkey
  rw [hqkey, hrkey]

/-- A key of a declaration is that of a type. -/
theorem isSome_get? (h : Registers done g) {q : DeclPlace} (hq : q ∈ done) :
    (g.registry.get? q.site.key).isSome := by
  have hmem : q ∈ DeclPlace.withKey done q.site.key := List.mem_filter.2 ⟨hq, by simp⟩
  have hsome := TypeSummary.isSome_ofParts (List.ne_nil_of_mem (List.mem_map_of_mem (f := (·.summary)) hmem))
  rw [← h.types, Option.isSome_map] at hsome
  exact hsome

/-- What agrees with a type is what agrees with its declarations. -/
theorem summary_agrees_iff (h : Registers done g) {e : TypeEntry} {key : TypeKey}
    (he : g.registry.get? key = some e) (t : TypeSummary) :
    e.summary.Agrees t ↔ ∀ q ∈ done, q.site.key = key → q.summary.Agrees t := by
  have hparts : TypeSummary.ofParts ((DeclPlace.withKey done key).map (·.summary)) = some e.summary := by
    rw [← h.types, he]
    rfl
  have like : ∀ q ∈ done, q.site.key = key → e.summary.Like q.summary := fun q hq hkey =>
    TypeSummary.like_of_ofParts (h.agree key) hparts _
      (List.mem_map_of_mem (List.mem_filter.2 ⟨hq, by simpa using hkey⟩))
  constructor
  · exact fun hagrees q hq hkey => ((like q hq hkey).agrees_iff t).1 hagrees
  · intro hall
    have hne : DeclPlace.withKey done key ≠ [] := by
      intro hnil
      rw [hnil] at hparts
      cases hparts
    obtain ⟨q, hq⟩ := List.exists_mem_of_ne_nil _ hne
    obtain ⟨hq, hkey⟩ := List.mem_filter.1 hq
    rw [decide_eq_true_eq] at hkey
    exact ((like q hq hkey).agrees_iff t).2 (hall q hq hkey)

/-- A declaration in declared types is not left out. -/
theorem isOpen (h : Registers done g) (enclosed : Enclosed done p) : g.isOpen p.site := by
  refine List.all_eq_true.2 fun d hd => ?_
  obtain ⟨q, hq, rfl⟩ := enclosed.containers d hd
  refine Assoc.get?_isSome_of_mem_keys ?_
  rw [Assoc.keys, h.declared, List.map_map]
  exact List.mem_map.2 ⟨q, hq, rfl⟩

/-- A declaration that fits has a place, and what it says is taken in there. -/
theorem place_of_fits (h : Registers done g) (enclosed : Enclosed done p) (fits : ∀ q ∈ done, q.Fits p) :
    ∃ r e, place g.registry p.tree.origin p.site = .ok r ∧
      r.types = g.registry.types.insert p.site.key e ∧
      e.summary = (((g.registry.get? p.site.key).map TypeEntry.summary).map (·.merge p.summary)).getD
        p.summary := by
  rw [place]
  cases he : g.registry.get? p.site.key with
  | none =>
      obtain ⟨r, hregister, htypes⟩ := Registry.register_of_new (e := p.site.newEntry p.tree.origin) he
        fun key hkey => by
          obtain ⟨q, hq, rfl⟩ := enclosed.container key hkey
          exact h.isSome_get? hq
      exact ⟨r, _, hregister, htypes, rfl⟩
  | some e =>
      have continued : e.continuedBy p.tree.origin p.site.decl :=
        TypeEntry.continuedBy_iff.2 ((h.summary_agrees_iff he _).2 fun q hq hkey => fits q hq hkey)
      refine ⟨g.registry.modify p.site.key (·.withPart p.site.decl), e.withPart p.site.decl, ?_, ?_, rfl⟩
      · dsimp only
        rw [if_pos continued]
      · rw [Registry.types_modify, ← Registry.get?, he]
        rfl

/-- A declaration that goes with those before it is registered with them. -/
theorem addPlace (h : Registers done g) (enclosed : Enclosed done p)
    (new : ∀ q ∈ done, q.site.decl.id ≠ p.site.decl.id) (fits : ∀ q ∈ done, q.Fits p) :
    Registers (done ++ [p]) (g.addPlace p) := by
  obtain ⟨r, e, hplace, htypes, hsummary⟩ := h.place_of_fits enclosed fits
  rw [Registration.addPlace, add, if_pos (h.isOpen enclosed), hplace]
  refine ⟨h.errors, ?_, fun key => ?_, ?_, ?_⟩
  · rw [List.pairwise_append]
    refine ⟨h.fits, List.pairwise_singleton _ _, fun q hq other hother => ?_⟩
    rw [List.mem_singleton.1 hother]
    exact fits q hq
  · rw [Registry.get?, htypes, Assoc.get?_insert, DeclPlace.withKey, List.filter_append]
    by_cases hkey : key = p.site.key
    · subst hkey
      rw [if_pos rfl, List.filter_cons_of_pos (by simp), List.filter_nil, List.map_append,
        List.map_singleton, TypeSummary.ofParts_concat, Option.map_some, hsummary, h.types]
      rfl
    · rw [if_neg hkey, List.filter_cons_of_neg (by simpa using Ne.symm hkey), List.filter_nil,
        List.append_nil]
      exact h.types key
  · dsimp only
    rw [htypes]
    by_cases hmem : p.site.key ∈ g.registry.types.keys
    · rw [Assoc.keys_insert_of_mem hmem]
      exact h.keys
    · rw [Assoc.keys, Assoc.entries_insert_of_not_mem hmem, List.map_append]
      exact List.nodup_append.2 ⟨h.keys, List.pairwise_singleton _ _, fun key hkey other hother => by
        rw [List.mem_singleton.1 hother]
        rintro rfl
        exact hmem hkey⟩
  · have hnew : p.site.decl.id ∉ g.declared.keys := by
      rw [Assoc.keys, h.declared, List.map_map]
      intro hmem
      obtain ⟨q, hq, heq⟩ := List.mem_map.1 hmem
      exact new q hq heq
    dsimp only
    rw [Assoc.entries_insert_of_not_mem hnew, h.declared, List.map_append, List.map_singleton]

/-- A declaration that does not go with one before it is an error. -/
theorem errors_addPlace (h : Registers done g) (enclosed : Enclosed done p)
    (unfit : ¬∀ q ∈ done, q.Fits p) : (g.addPlace p).errors ≠ [] := by
  -- a declaration before it has the key, so there is a type that it would have to continue
  rw [not_forall₂] at unfit
  obtain ⟨q, hq, hunfit⟩ := unfit
  rw [DeclPlace.Fits, Classical.not_imp] at hunfit
  obtain ⟨hkey, hdisagree⟩ := hunfit
  have hsome := h.isSome_get? hq
  rw [hkey] at hsome
  obtain ⟨e, he⟩ := Option.isSome_iff_exists.1 hsome
  have hended : ¬e.continuedBy p.tree.origin p.site.decl := fun hcontinued =>
    hdisagree ((h.summary_agrees_iff he _).1 (TypeEntry.continuedBy_iff.1 hcontinued) q hq hkey)
  rw [Registration.addPlace, add, if_pos (h.isOpen enclosed), place, he]
  dsimp only
  rw [if_neg hended]
  simp

end Registers

/-! ### Runs -/

/-- Declarations one after the other, each in types that are declared before it. -/
def EnclosedAll : List DeclPlace → List DeclPlace → Prop
  | _, [] => True
  | done, p :: rest => Enclosed done p ∧ EnclosedAll (done ++ [p]) rest

theorem EnclosedAll.append {a b : List DeclPlace} :
    ∀ {done : List DeclPlace}, EnclosedAll done a → EnclosedAll (done ++ a) b →
    EnclosedAll done (a ++ b) := by
  induction a with
  | nil =>
      intro done _ hb
      rw [List.append_nil] at hb
      exact hb
  | cons p rest ih =>
      intro done ha hb
      rw [← List.singleton_append, ← List.append_assoc] at hb
      exact ⟨ha.1, ih ha.2 hb⟩

/-- The declarations of a tree stand in types that are declared before them. -/
theorem enclosedAll_sites {t : SourceTree} (hids : (t.sites.map (·.decl.id)).Nodup) (done : List DeclPlace) :
    EnclosedAll done (t.sites.map (⟨t, ·⟩)) := by
  have hrun : ∀ (rest : List DeclSite) (known : List TypeDecl) (done : List DeclPlace),
      DeclSite.Nested known rest →
      (∀ s ∈ rest, s ∈ t.sites) → (∀ d ∈ known, ∃ s ∈ t.sites, s.decl = d ∧ ⟨t, s⟩ ∈ done) →
      EnclosedAll done (rest.map (⟨t, ·⟩)) := by
    intro rest
    induction rest with
    | nil => exact fun _ _ _ _ _ => trivial
    | cons s rest ih =>
        intro known done nested hrest hknown
        refine ⟨⟨fun d hd => ?_, fun key hkey => ?_⟩, ih (s.decl :: known) (done ++ [⟨t, s⟩]) nested.2
          (fun u hu => hrest u (List.mem_cons_of_mem _ hu)) fun d hd => ?_⟩
        · obtain ⟨u, -, rfl, hu⟩ := hknown d (nested.1 d hd)
          exact ⟨_, hu, rfl⟩
        · rw [DeclSite.container?_eq] at hkey
          split at hkey
          · cases hkey
          · rename_i hne
            obtain ⟨outer, d, hcontainers⟩ := (List.eq_nil_or_concat s.containers).resolve_left hne
            rw [List.concat_eq_append] at hcontainers
            have hparent := (SourceTree.mem_sites_parent (hrest s List.mem_cons_self) hcontainers).1
            obtain ⟨u, hmem, hu, hdone⟩ := hknown d (nested.1 d (by rw [hcontainers]; simp))
            obtain rfl : u = ⟨s.spaces, outer, d⟩ := List.inj_on_of_nodup_map hids hmem hparent (by rw [hu])
            refine ⟨_, hdone, ?_⟩
            rw [← Option.some.inj hkey, hcontainers]
            rfl
        · rcases List.mem_cons.1 hd with rfl | hd
          · exact ⟨s, hrest s List.mem_cons_self, rfl, by simp⟩
          · obtain ⟨u, hmem, hu, hdone⟩ := hknown d hd
            exact ⟨u, hmem, hu, List.mem_append_left _ hdone⟩
  exact hrun t.sites [] done t.nested_sites (fun _ hs => hs) (by simp)

/-- The declarations of trees stand in types that are declared before them. -/
theorem enclosedAll_ofTrees {trees : List SourceTree}
    (hids : ((DeclPlace.ofTrees trees).map (·.site.decl.id)).Nodup) (done : List DeclPlace) :
    EnclosedAll done (DeclPlace.ofTrees trees) := by
  induction trees generalizing done with
  | nil => trivial
  | cons t rest ih =>
      rw [DeclPlace.ofTrees, List.flatMap_cons, List.map_append, List.map_map] at hids
      obtain ⟨htree, hrest, -⟩ := List.nodup_append.1 hids
      exact (enclosedAll_sites htree done).append (ih hrest _)

theorem errors_prefix_places (places : List DeclPlace) (g : Registration) :
    g.errors <+: (places.foldl addPlace g).errors := by
  induction places generalizing g with
  | nil => exact List.prefix_refl _
  | cons p rest ih => exact (errors_prefix_add g p.tree.origin p.site).trans (ih _)

/-- Declarations are registered without errors exactly if any two of them fit. -/
theorem Registers.foldl {done rest : List DeclPlace} {g : Registration} (h : Registers done g)
    (enclosed : EnclosedAll done rest) (hids : ((done ++ rest).map (·.site.decl.id)).Nodup) :
    ((rest.foldl Registration.addPlace g).errors = [] ↔ (done ++ rest).Pairwise DeclPlace.Fits) ∧
    ((done ++ rest).Pairwise DeclPlace.Fits →
      Registers (done ++ rest) (rest.foldl Registration.addPlace g)) := by
  induction rest generalizing done g with
  | nil =>
      rw [List.append_nil]
      exact ⟨⟨fun _ => h.fits, fun _ => h.errors⟩, fun _ => h⟩
  | cons p rest ih =>
      by_cases fits : ∀ q ∈ done, q.Fits p
      · have hnew : ∀ q ∈ done, q.site.decl.id ≠ p.site.decl.id := by
          rw [List.map_append, List.nodup_append] at hids
          exact fun q hq => hids.2.2 _ (List.mem_map_of_mem hq) _ (List.mem_map_of_mem List.mem_cons_self)
        rw [← List.singleton_append, ← List.append_assoc] at hids ⊢
        exact ih (h.addPlace enclosed.1 hnew fits) enclosed.2 hids
      · have hfails : ¬(done ++ p :: rest).Pairwise DeclPlace.Fits := fun hpairwise =>
          fits fun q hq => (List.pairwise_append.1 hpairwise).2.2 q hq p List.mem_cons_self
        refine ⟨⟨fun hclean => ?_, fun hpairwise => absurd hpairwise hfails⟩,
          fun hpairwise => absurd hpairwise hfails⟩
        exact absurd (List.prefix_nil.1 (hclean ▸ errors_prefix_places rest _))
          (h.errors_addPlace enclosed.1 fits)

/-! ### Numbers of types and of merged declarations -/

/-- How many declarations make a type, and how many go with ones before them. -/
structure Tally where
  types : Nat
  merged : Nat
deriving DecidableEq, Repr

/-- A declaration is counted when it is registered. -/
def Tally.count (n : Tally) (g : Registration) (p : DeclPlace) : Tally :=
  if g.isOpen p.site then
    match place g.registry p.tree.origin p.site with
    | .ok _ =>
        match g.registry.get? p.site.key with
        | none => { n with types := n.types + 1 }
        | some _ => { n with merged := n.merged + 1 }
    | .error _ => n
  else n

/-- The numbers after declarations are registered one after the other. -/
def tally (g : Registration) (n : Tally) : List DeclPlace → Tally
  | [] => n
  | p :: rest => tally (g.addPlace p) (n.count g p) rest

/-- A declaration that has a place puts a type there. -/
theorem types_of_place_eq_ok {r r' : Registry} {origin : Origin} {s : DeclSite}
    (h : place r origin s = .ok r') : ∃ e, r'.types = r.types.insert s.key e := by
  rw [place] at h
  split at h
  · have htypes := r.types_register (s.newEntry origin)
    rw [h] at htypes
    split at htypes
    · cases htypes
    · split at htypes
      · cases htypes
      · exact ⟨_, Except.ok.inj htypes⟩
  · rename_i e he
    split at h
    · cases h
      refine ⟨e.withPart s.decl, ?_⟩
      rw [Registry.types_modify, ← Registry.get?, he]
      rfl
    · cases h

/-- The numbers are those of the types and of the registered declarations. -/
structure Tallies (done : List DeclPlace) (g : Registration) (n : Tally) : Prop where
  types : g.registry.types.entries.length = n.types
  declared : g.declared.entries.length = n.types + n.merged
  ids : ∀ id ∈ g.declared.keys, ∃ q ∈ done, q.site.decl.id = id

/-- A declaration that is registered is one more, and one that is not changes nothing. -/
theorem Tallies.addPlace {done : List DeclPlace} {g : Registration} {n : Tally} {p : DeclPlace}
    (h : Tallies done g n) (new : ∀ q ∈ done, q.site.decl.id ≠ p.site.decl.id) :
    Tallies (done ++ [p]) (g.addPlace p) (n.count g p) := by
  have hwider : Tallies (done ++ [p]) g n := by
    refine ⟨h.types, h.declared, fun id hid => ?_⟩
    obtain ⟨q, hq, hqid⟩ := h.ids id hid
    exact ⟨q, List.mem_append_left _ hq, hqid⟩
  rw [Registration.addPlace, add, Tally.count]
  split
  · cases hplace : place g.registry p.tree.origin p.site with
    | error e => exact ⟨hwider.types, hwider.declared, hwider.ids⟩
    | ok r =>
        obtain ⟨e, htypes⟩ := types_of_place_eq_ok hplace
        have hnew : p.site.decl.id ∉ g.declared.keys := fun hmem => by
          obtain ⟨q, hq, hid⟩ := h.ids _ hmem
          exact new q hq hid
        have hentries := Assoc.entries_insert_of_not_mem hnew p.site.key
        have hids : ∀ id ∈ (g.declared.insert p.site.decl.id p.site.key).keys,
            ∃ q ∈ done ++ [p], q.site.decl.id = id := by
          intro id hid
          rw [Assoc.keys, hentries, List.map_append, List.mem_append] at hid
          rcases hid with hid | hid
          · exact hwider.ids id hid
          · exact ⟨p, by simp, (List.mem_singleton.1 hid).symm⟩
        cases he : g.registry.get? p.site.key with
        | none =>
            have hfresh : p.site.key ∉ g.registry.types.keys := fun hmem => by
              have hsome := Assoc.get?_isSome_of_mem_keys hmem
              rw [← Registry.get?, he] at hsome
              cases hsome
            refine ⟨?_, ?_, hids⟩
            · rw [htypes, Assoc.entries_insert_of_not_mem hfresh, List.length_append, h.types]
              rfl
            · dsimp only
              rw [hentries, List.length_append, h.declared, List.length_singleton]
              omega
        | some old =>
            have hthere : p.site.key ∈ g.registry.types.keys := Assoc.mem_keys_of_get? he
            have hkeys := congrArg List.length (Assoc.keys_insert_of_mem hthere e)
            rw [Assoc.keys, Assoc.keys, List.length_map, List.length_map] at hkeys
            refine ⟨?_, ?_, hids⟩
            · dsimp only
              rw [htypes, hkeys, h.types]
            · dsimp only
              rw [hentries, List.length_append, h.declared, List.length_singleton]
              omega
  · exact hwider

theorem Tallies.foldl {done rest : List DeclPlace} {g : Registration} {n : Tally} (h : Tallies done g n)
    (hids : ((done ++ rest).map (·.site.decl.id)).Nodup) :
    Tallies (done ++ rest) (rest.foldl Registration.addPlace g) (tally g n rest) := by
  induction rest generalizing done g n with
  | nil =>
      rw [List.append_nil]
      exact h
  | cons p rest ih =>
      have hnew : ∀ q ∈ done, q.site.decl.id ≠ p.site.decl.id := by
        rw [List.map_append, List.nodup_append] at hids
        exact fun q hq => hids.2.2 _ (List.mem_map_of_mem hq) _ (List.mem_map_of_mem List.mem_cons_self)
      rw [← List.singleton_append, ← List.append_assoc] at hids ⊢
      exact ih (h.addPlace hnew) hids

/-- The number of types is that of the declarations that make one, and the number of merged declarations is
that of those that go with ones before them, with errors or without. -/
theorem tally_eq (trees : List SourceTree)
    (hids : ((DeclPlace.ofTrees trees).map (·.site.decl.id)).Nodup) :
    tally .empty ⟨0, 0⟩ (DeclPlace.ofTrees trees) =
      ⟨(ofTrees trees).typeCount, (ofTrees trees).mergedCount⟩ := by
  have hstart : Tallies [] .empty ⟨0, 0⟩ := ⟨rfl, rfl, fun id hid => by cases hid⟩
  have htallies : Tallies (DeclPlace.ofTrees trees) ((DeclPlace.ofTrees trees).foldl addPlace .empty)
      (tally .empty ⟨0, 0⟩ (DeclPlace.ofTrees trees)) := hstart.foldl hids
  have same := sameTypes_ofTrees trees
  have htypes : (ofTrees trees).typeCount = (tally .empty ⟨0, 0⟩ (DeclPlace.ofTrees trees)).types := by
    rw [typeCount, same.types]
    exact htallies.types
  rw [mergedCount, htypes, same.declared, htallies.declared, Nat.add_sub_cancel_left]

/-! ### Consistent declarations -/

/-- What registration leaves does not depend on the namespaces. -/
theorem SameTypes.registers {done : List DeclPlace} {g g' : Registration} (same : SameTypes g g')
    (h : Registers done g') : Registers done g where
  errors := same.errors.trans h.errors
  fits := h.fits
  types key := by
    rw [Registry.get?, same.types]
    exact h.types key
  keys := by
    rw [same.types]
    exact h.keys
  declared := by
    rw [same.declared]
    exact h.declared

/-- Trees are registered without errors exactly if any two declarations fit. -/
theorem registers_ofTrees {trees : List SourceTree}
    (hids : ((DeclPlace.ofTrees trees).map (·.site.decl.id)).Nodup) :
    ((ofTrees trees).errors = [] ↔ (DeclPlace.ofTrees trees).Pairwise DeclPlace.Fits) ∧
    ((DeclPlace.ofTrees trees).Pairwise DeclPlace.Fits →
      Registers (DeclPlace.ofTrees trees) (ofTrees trees)) := by
  have same := sameTypes_ofTrees trees
  obtain ⟨hiff, hregisters⟩ := Registers.empty.foldl (enclosedAll_ofTrees hids []) hids
  rw [same.errors]
  exact ⟨hiff, fun fits => same.registers (hregisters fits)⟩

namespace Registers

variable {places : List DeclPlace} {g : Registration}

/-- Every declaration is registered with its key, and nothing else is. -/
theorem declared_eq_some_iff (h : Registers places g) (hids : (places.map (·.site.decl.id)).Nodup)
    (id : DeclId) (key : TypeKey) :
    g.declared.get? id = some key ↔ ∃ p ∈ places, p.site.decl.id = id ∧ p.site.key = key := by
  have hkeys : g.declared.keys.Nodup := by
    rw [Assoc.keys, h.declared, List.map_map]
    exact hids
  rw [Assoc.get?_eq_some_iff hkeys, h.declared, List.mem_map]
  simp only [Prod.mk.injEq]

/-- There are as many types as identities. -/
theorem typeCount_eq (h : Registers places g)
    (distinct : ∀ p ∈ places, ∀ q ∈ places, p.site.key = q.site.key → p.site.identity = q.site.identity) :
    g.typeCount = (places.map (·.site.identity)).dedup.length := by
  have hnodup : ((places.map (·.site.identity)).dedup.map TypeKey.ofName).Nodup := by
    refine List.Nodup.map_on (fun name hname other hother heq => ?_) (List.nodup_dedup _)
    obtain ⟨p, hp, rfl⟩ := List.mem_map.1 (List.mem_dedup.1 hname)
    obtain ⟨q, hq, rfl⟩ := List.mem_map.1 (List.mem_dedup.1 hother)
    exact distinct p hp q hq heq
  have hmem : ∀ key, key ∈ g.registry.types.keys ↔
      key ∈ (places.map (·.site.identity)).dedup.map TypeKey.ofName := by
    intro key
    constructor
    · intro hkey
      have hsome := Assoc.get?_isSome_of_mem_keys hkey
      rw [← Registry.get?, ← Option.isSome_map (f := TypeEntry.summary), h.types] at hsome
      cases hplaces : DeclPlace.withKey places key with
      | nil =>
          rw [hplaces] at hsome
          cases hsome
      | cons p rest =>
          have hp : p ∈ DeclPlace.withKey places key := hplaces ▸ List.mem_cons_self
          rw [DeclPlace.withKey, List.mem_filter, decide_eq_true_eq] at hp
          exact List.mem_map.2 ⟨p.site.identity, List.mem_dedup.2 (List.mem_map_of_mem hp.1), hp.2⟩
    · intro hkey
      obtain ⟨name, hname, rfl⟩ := List.mem_map.1 hkey
      obtain ⟨p, hp, rfl⟩ := List.mem_map.1 (List.mem_dedup.1 hname)
      obtain ⟨e, he⟩ := Option.isSome_iff_exists.1 (h.isSome_get? hp)
      exact Assoc.mem_keys_of_get? he
  have hperm := (List.perm_ext_iff_of_nodup h.keys hnodup).2 hmem
  have hlength := hperm.length_eq
  rw [Assoc.keys, List.length_map, List.length_map] at hlength
  exact hlength

/-- The declarations are registered in any order of the trees in the same way. -/
theorem eq_of_perm {places places' : List DeclPlace} {g g' : Registration} (h : Registers places g)
    (h' : Registers places' g') (perm : places'.Perm places) (hids : (places.map (·.site.decl.id)).Nodup) :
    (∀ key, (g'.registry.get? key).map TypeEntry.summary = (g.registry.get? key).map TypeEntry.summary) ∧
      ∀ id, g'.declared.get? id = g.declared.get? id := by
  have hids' : (places'.map (·.site.decl.id)).Nodup := (perm.map _).nodup_iff.2 hids
  refine ⟨fun key => ?_, fun id => Option.ext fun key => ?_⟩
  · rw [h.types, h'.types]
    exact TypeSummary.ofParts_perm ((perm.filter _).map _) (h.agree key)
  · rw [h.declared_eq_some_iff hids, h'.declared_eq_some_iff hids']
    exact exists_congr fun p => and_congr_left' perm.mem_iff

end Registers

/-- Where declarations have numbers of their own and no two identities have one key, trees are registered
without errors exactly if of every identity there is only one declaration, or all declarations are
partial and have one kind and one origin.  There are then as many types as identities, all declarations
are parts of a type, the one with their key, which has the kind, the origin and the modifiers that they
have together, and the order of the trees does not matter.  The two numbers are what is counted when one
declaration after the other is registered, with errors or without. -/
theorem errors_eq_nil_iff_consistent (trees : List SourceTree)
    (hids : ((DeclPlace.ofTrees trees).map (·.site.decl.id)).Nodup)
    (distinct : ∀ p ∈ DeclPlace.ofTrees trees, ∀ q ∈ DeclPlace.ofTrees trees,
      p.site.key = q.site.key → p.site.identity = q.site.identity) :
    let places := DeclPlace.ofTrees trees
    let g := ofTrees trees
    tally .empty ⟨0, 0⟩ places = ⟨g.typeCount, g.mergedCount⟩ ∧
    (g.errors = [] ↔ DeclPlace.Consistent places) ∧
    (DeclPlace.Consistent places →
      g.typeCount = (places.map (·.site.identity)).dedup.length ∧
      g.typeCount + g.mergedCount = places.length ∧
      (∀ id key, g.declared.get? id = some key ↔ ∃ p ∈ places, p.site.decl.id = id ∧ p.site.key = key) ∧
      (∀ key, (g.registry.get? key).map TypeEntry.summary =
        TypeSummary.ofParts ((DeclPlace.withKey places key).map (·.summary))) ∧
      ∀ trees' : List SourceTree, trees'.Perm trees →
        (ofTrees trees').errors = [] ∧
        (∀ key, ((ofTrees trees').registry.get? key).map TypeEntry.summary =
          (g.registry.get? key).map TypeEntry.summary) ∧
        ∀ id, (ofTrees trees').declared.get? id = g.declared.get? id) := by
  intro places g
  obtain ⟨hiff, hregisters⟩ := registers_ofTrees hids
  have hconsistent := DeclPlace.consistent_iff_pairwise distinct
  refine ⟨tally_eq trees hids, hiff.trans hconsistent.symm, fun consistent => ?_⟩
  have fits := hconsistent.1 consistent
  have h : Registers places g := hregisters fits
  have hcount := h.typeCount_eq distinct
  refine ⟨hcount, ?_, h.declared_eq_some_iff hids, h.types, fun trees' perm => ?_⟩
  · have hle : g.typeCount ≤ places.length := by
      rw [hcount]
      exact (List.dedup_sublist _).length_le.trans (List.length_map _).le
    have hdeclared : g.declared.entries.length = places.length := by
      rw [h.declared, List.length_map]
    rw [mergedCount, hdeclared]
    omega
  · have hperm : (DeclPlace.ofTrees trees').Perm places := perm.flatMap_right _
    have hids' : ((DeclPlace.ofTrees trees').map (·.site.decl.id)).Nodup := (hperm.map _).nodup_iff.2 hids
    have h' := (registers_ofTrees hids').2 ((hperm.pairwise_iff DeclPlace.Fits.symm).2 fits)
    exact ⟨h'.errors, h.eq_of_perm h' hperm hids⟩

/-! ### Sample trees -/

/-- Whether the declarations in documents that can be read are consistent and their identities have keys of
their own, and how many identities and declarations there are. -/
def identities? (documents : List Document) : Option (Bool × Nat × Nat) :=
  (Compilation.read documents).toOption.map fun trees =>
    let places := DeclPlace.ofTrees trees
    (decide (DeclPlace.Consistent places ∧
        ∀ p ∈ places, ∀ q ∈ places, p.site.key = q.site.key → p.site.identity = q.site.identity),
      (places.map (·.site.identity)).dedup.length, places.length)

theorem of_identities?_eq_some {documents : List Document} {types count : Nat}
    (h : identities? documents = some (true, types, count)) :
    ∃ trees, Compilation.read documents = .ok trees ∧ DeclPlace.Consistent (DeclPlace.ofTrees trees) ∧
      (∀ p ∈ DeclPlace.ofTrees trees, ∀ q ∈ DeclPlace.ofTrees trees,
        p.site.key = q.site.key → p.site.identity = q.site.identity) ∧
      ((DeclPlace.ofTrees trees).map (·.site.identity)).dedup.length = types ∧
      (DeclPlace.ofTrees trees).length = count := by
  unfold identities? at h
  obtain ⟨trees, hread, h⟩ := Option.map_eq_some_iff.1 h
  obtain ⟨hholds, hnumbers⟩ := Prod.mk.inj h
  obtain ⟨consistent, distinct⟩ := of_decide_eq_true hholds
  obtain ⟨htypes, hcount⟩ := Prod.mk.inj hnumbers
  exact ⟨trees, eq_ok_of_toOption hread, consistent, distinct, htypes, hcount⟩

/-- A partial class with a class in it, in two files, and a class on its own. -/
def splitClass : List Document :=
  [⟨"a.cs", "partial class A\x7bclass B\x7b\x7d\x7d", .source⟩,
    ⟨"b.cs", "class C\x7b\x7dsealed partial class A\x7b\x7d", .source⟩]

/-- The files are registered without errors in either order, as three types of which one has two parts. -/
theorem errors_eq_nil_iff_consistent_splitClass :
    ∃ trees, Compilation.read splitClass = .ok trees ∧ (ofTrees trees).errors = [] ∧
      (ofTrees trees.reverse).errors = [] ∧ (ofTrees trees).typeCount = 3 ∧
      (ofTrees trees).mergedCount = 1 := by
  obtain ⟨trees, hread, consistent, distinct, htypes, hplaces⟩ :=
    of_identities?_eq_some (show identities? splitClass = some (true, 3, 4) by decide +kernel)
  obtain ⟨-, hiff, hall⟩ := errors_eq_nil_iff_consistent trees (DeclPlace.nodup_ids_of_read hread) distinct
  obtain ⟨htypeCount, hcounts, -, -, hperm⟩ := hall consistent
  have hthree : (ofTrees trees).typeCount = 3 := htypeCount.trans htypes
  exact ⟨trees, hread, hiff.2 consistent, (hperm trees.reverse trees.reverse_perm).1, hthree, by omega⟩

end Registration

end Graft
