/-
Module: Graft.Proofs.Program.Registered
Purpose: The types of a compilation and the declarations that they come from.
Main exports: TypeEntry.DeclaredAt, Registry.From, Registration.registry_induction,
  Compilation.from_of_build, Compilation.named_of_build
-/
import Graft.Program.Compilation
import Graft.Proofs.Program.Sites

namespace Graft

/-! ### Types and declarations -/

/-- A type without what further parts and its members add to it. -/
def TypeEntry.bare (e : TypeEntry) : TypeEntry :=
  { e with modifiers := .empty, declarations := [], attributes := [], members := [] }

@[simp] theorem TypeEntry.bare_withPart (e : TypeEntry) (d : TypeDecl) :
    (e.withPart d).bare = e.bare := rfl

@[simp] theorem TypeEntry.bare_addMember (e : TypeEntry) (m : MemberEntry) :
    (e.addMember m).bare = e.bare := rfl

@[simp] theorem TypeEntry.bare_withConstant (e : TypeEntry) (name : String) (value : Constant) :
    (e.withConstant name value).bare = e.bare := rfl

@[simp] theorem TypeEntry.bare_addAttribute (e : TypeEntry) (a : AttributeEntry) :
    (e.addAttribute a).bare = e.bare := rfl

/-- A type is the one that is first declared at a place. -/
def TypeEntry.DeclaredAt (e : TypeEntry) (s : DeclSite) : Prop :=
  ∃ origin, e.bare = (s.newEntry origin).bare

namespace TypeEntry.DeclaredAt

variable {e : TypeEntry} {s : DeclSite} (declared : e.DeclaredAt s)
include declared

theorem key : e.key = s.key := declared.elim fun _ h => congrArg TypeEntry.key h

theorem qualified : e.qualified = s.qualified := declared.elim fun _ h => congrArg TypeEntry.qualified h

theorem space : e.space = s.path := declared.elim fun _ h => congrArg TypeEntry.space h

theorem kind : e.kind = s.decl.kind := declared.elim fun _ h => congrArg TypeEntry.kind h

theorem typeParams : e.typeParams = s.decl.paramNames :=
  declared.elim fun _ h => congrArg TypeEntry.typeParams h

theorem container? : e.container? = s.container? :=
  declared.elim fun _ h => congrArg TypeEntry.container? h

end TypeEntry.DeclaredAt

namespace Registry

/-! ### Changes to a registry -/

theorem get?_modify (r : Registry) (key other : TypeKey) (f : TypeEntry → TypeEntry) :
    (r.modify key f).get? other = if other = key then (r.get? key).map f else r.get? other := by
  unfold modify
  split
  · rename_i e h
    change (r.types.insert key (f e)).get? other = _
    rw [Assoc.get?_insert, h]
    rfl
  · rename_i h
    split
    · rename_i hkey
      rw [hkey, h]
      rfl
    · rfl

/-- A type that is registered is new, and so is nothing else. -/
theorem register_eq_ok {r r' : Registry} {e : TypeEntry} (h : r.register e = .ok r') :
    r.get? e.key = none ∧ (∀ c, e.container? = some c → (r.get? c).isSome) ∧
      ∀ key, r'.get? key = if key = e.key then some e else r.get? key := by
  unfold register at h
  split at h
  · cases h
  · rename_i hnew
    refine ⟨by simpa using hnew, ?_⟩
    split at h
    · rename_i c hc
      split at h
      · cases h
      · rename_i hcontainer
        cases h
        refine ⟨?_, fun key => Assoc.get?_insert _ _ _ _⟩
        intro c' hc'
        rw [hc] at hc'
        cases hc'
        simpa [Option.isSome_iff_ne_none] using hcontainer
    · rename_i hc
      cases h
      refine ⟨?_, fun key => Assoc.get?_insert _ _ _ _⟩
      intro c hc'
      rw [hc] at hc'
      cases hc'

/-- Every type is declared at one of some places, and the type that holds it is there as well. -/
structure From (sites : List DeclSite) (r : Registry) : Prop where
  declared : ∀ key e, r.get? key = some e → ∃ s ∈ sites, s.key = key ∧ e.DeclaredAt s
  container : ∀ key e c, r.get? key = some e → e.container? = some c → (r.get? c).isSome

namespace From

variable {sites : List DeclSite} {r : Registry}

theorem empty : From sites Registry.empty where
  declared := by
    intro key e h
    cases h
  container := by
    intro key e c h
    cases h

theorem createSpace (hr : r.From sites) (path : List String) : (r.createSpace path).From sites :=
  ⟨hr.declared, hr.container⟩

/-- A change that leaves the bare type alone. -/
theorem modify (hr : r.From sites) (key : TypeKey) {f : TypeEntry → TypeEntry}
    (hf : ∀ e, (f e).bare = e.bare) : (r.modify key f).From sites := by
  have hback : ∀ k e, (r.modify key f).get? k = some e →
      ∃ old, r.get? k = some old ∧ e.bare = old.bare := by
    intro k e h
    rw [get?_modify] at h
    split at h
    · rename_i hk
      obtain ⟨old, hold, rfl⟩ := Option.map_eq_some_iff.1 h
      exact ⟨old, by rw [hk]; exact hold, hf old⟩
    · exact ⟨e, h, rfl⟩
  constructor
  · intro k e h
    obtain ⟨old, hold, hbare⟩ := hback k e h
    obtain ⟨s, hs, hkey, origin, hdeclared⟩ := hr.declared k old hold
    exact ⟨s, hs, hkey, origin, hbare.trans hdeclared⟩
  · intro k e c h hc
    obtain ⟨old, hold, hbare⟩ := hback k e h
    have hcontainer : old.container? = some c := (congrArg TypeEntry.container? hbare).symm.trans hc
    rw [get?_modify]
    split
    · rename_i hkey
      rw [Option.isSome_map, ← hkey]
      exact hr.container k old c hold hcontainer
    · exact hr.container k old c hold hcontainer

/-- A type registered at one of the places. -/
theorem register (hr : r.From sites) {s : DeclSite} (hs : s ∈ sites) {origin : Origin}
    {r' : Registry} (h : r.register (s.newEntry origin) = .ok r') : r'.From sites := by
  obtain ⟨-, hcontainer, hget⟩ := register_eq_ok h
  constructor
  · intro key e he
    rw [hget] at he
    split at he
    · rename_i hkey
      cases he
      exact ⟨s, hs, hkey.symm, origin, rfl⟩
    · exact hr.declared key e he
  · intro key e c he hc
    rw [hget]
    split
    · rfl
    · rw [hget] at he
      split at he
      · cases he
        exact hcontainer c hc
      · exact hr.container key e c he hc

end From

end Registry

/-! ### Registration -/

namespace Registration

/-- A declaration makes a type, becomes a part of one, or leaves the types as they are. -/
theorem registry_add (g : Registration) (origin : Origin) (s : DeclSite) :
    g.registry.register (s.newEntry origin) = .ok (g.add origin s).registry ∨
      (g.add origin s).registry = g.registry.modify s.key (·.withPart s.decl) ∨
      (g.add origin s).registry = g.registry := by
  unfold add
  split
  · cases hplace : place g.registry origin s with
    | error e => exact .inr (.inr rfl)
    | ok r =>
        unfold place at hplace
        split at hplace
        · exact .inl hplace
        · split at hplace
          · cases hplace
            exact .inr (.inl rfl)
          · cases hplace
  · exact .inr (.inr rfl)

/-- What holds of an empty registration, and is kept by namespaces and by declarations of the trees, holds
when all of them are registered. -/
theorem induction_ofTrees {P : Registration → Prop} {trees : List SourceTree} (start : P .empty)
    (space : ∀ g path, P g → P { g with registry := g.registry.createSpace path })
    (decl : ∀ t ∈ trees, ∀ s ∈ t.sites, ∀ g, P g → P (g.add t.origin s)) : P (ofTrees trees) := by
  have hspaces : ∀ (chains : List (List NamespaceDecl)) (g : Registration), P g → P { g with
      registry := chains.foldl (fun r chain => r.createSpace (chain.flatMap (·.path))) g.registry } := by
    intro chains
    induction chains with
    | nil => exact fun _ hg => hg
    | cons chain rest ih => exact fun g hg => ih _ (space g _ hg)
  have hsites : ∀ t ∈ trees, ∀ (sites : List DeclSite), (∀ s ∈ sites, s ∈ t.sites) → ∀ g, P g →
      P (sites.foldl (fun g s => g.add t.origin s) g) := by
    intro t ht sites
    induction sites with
    | nil => exact fun _ _ hg => hg
    | cons s rest ih =>
        intro hmem g hg
        exact ih (fun u hu => hmem u (List.mem_cons_of_mem _ hu)) _ (decl t ht s
          (hmem s List.mem_cons_self) g hg)
  have htrees : ∀ (list : List SourceTree), (∀ t ∈ list, t ∈ trees) → ∀ g, P g →
      P (list.foldl addTree g) := by
    intro list
    induction list with
    | nil => exact fun _ _ hg => hg
    | cons t rest ih =>
        intro hmem g hg
        exact ih (fun u hu => hmem u (List.mem_cons_of_mem _ hu)) _
          (hsites t (hmem t List.mem_cons_self) t.sites (fun _ hs => hs) _ (hspaces t.chains g hg))
  exact htrees trees (fun _ ht => ht) empty start

/-- What holds of the empty registry, and is kept by namespaces, by new types and by further parts of
types, holds when all declarations of the trees are registered. -/
theorem registry_induction {P : Registry → Prop} {trees : List SourceTree} (start : P .empty)
    (space : ∀ r path, P r → P (r.createSpace path))
    (type : ∀ s ∈ trees.flatMap (·.sites), ∀ origin r r', P r →
      r.register (s.newEntry origin) = .ok r' → P r')
    (part : ∀ r key d, P r → P (r.modify key (·.withPart d))) : P (ofTrees trees).registry := by
  refine induction_ofTrees (P := fun g => P g.registry) start (fun g path => space g.registry path) ?_
  intro t ht s hs g hg
  rcases registry_add g t.origin s with hregister | hpart | hsame
  · exact type s (List.mem_flatMap.2 ⟨t, ht, hs⟩) t.origin _ _ hg hregister
  · rw [hpart]
    exact part _ _ _ hg
  · rw [hsame]
    exact hg

/-- Registered types come from the declarations of the trees. -/
theorem from_ofTrees (trees : List SourceTree) :
    (ofTrees trees).registry.From (trees.flatMap (·.sites)) :=
  registry_induction .empty (fun _ path hr => hr.createSpace path) (fun _ hs _ _ _ hr h => hr.register hs h)
    fun _ key d hr => hr.modify key fun e => e.bare_withPart d

end Registration

/-! ### Completion -/

/-- What changes of types keep that leave the bare types alone is kept when types are completed. -/
theorem Completion.registry_induction {P : Registry → Prop} {g : Registration} (start : P g.registry)
    (modify : ∀ (r : Registry) (key : TypeKey) (f : TypeEntry → TypeEntry),
      (∀ e, (f e).bare = e.bare) → P r →
      P (r.modify key f)) (trees : List SourceTree) : P (Completion.ofRegistration g trees).registry := by
  have hfold : ∀ {α : Type} (step : Registry → α → Registry) (list : List α) (r : Registry), P r →
      (∀ r a, P r → P (step r a)) → P (list.foldl step r) := by
    intro α step list
    induction list with
    | nil => exact fun _ hr _ => hr
    | cons a rest ih => exact fun r hr hstep => ih (step r a) (hstep r a hr) hstep
  unfold Completion.ofRegistration
  dsimp only
  refine hfold _ _ _ (hfold _ _ _ (hfold _ _ _ start ?_) ?_) ?_
  · exact fun r b hr => hfold _ _ _ hr fun r m hr => modify r _ _ (fun e => e.bare_addMember m) hr
  · intro r entry hr
    obtain ⟨id, value⟩ := entry
    dsimp only
    split
    · exact modify r _ _ (fun e => e.bare_withConstant _ _) hr
    · exact hr
  · exact fun r entry hr => modify r _ _ (fun e => e.bare_addAttribute _) hr

/-- Completing types leaves them where they are declared. -/
theorem Completion.from_ofRegistration {sites : List DeclSite} {g : Registration}
    (hg : g.registry.From sites) (trees : List SourceTree) :
    (Completion.ofRegistration g trees).registry.From sites :=
  registry_induction hg (fun _ key _ bare hr => hr.modify key bare) trees

/-! ### Compilations -/

namespace Compilation

/-- The declarations of types in all files. -/
def sites (c : Compilation) : List DeclSite := c.trees.flatMap (·.sites)

theorem parse_of_readFrom {documents : List Document} {index : Nat} {trees : List SourceTree}
    (h : readFrom index documents = .ok trees) :
    ∀ t ∈ trees, ∃ id d, SourceTree.parse id d = .ok t := by
  induction documents generalizing index trees with
  | nil =>
      cases h
      simp
  | cons d rest ih =>
      unfold readFrom at h
      split at h
      · cases h
      · rename_i tree htree
        cases hrest : readFrom (index + 1) rest with
        | error e =>
            rw [hrest] at h
            cases h
        | ok list =>
            rw [hrest] at h
            cases h
            intro t ht
            rcases List.mem_cons.1 ht with rfl | ht
            · exact ⟨_, _, htree⟩
            · exact ih hrest t ht

/-- What a compilation without errors consists of. -/
theorem build_eq_ok {documents : List Document} {c : Compilation} (h : build documents = .ok c) :
    read documents = .ok c.trees ∧ (Registration.ofTrees c.trees).errors = [] ∧
      c.registry = (Completion.ofRegistration (.ofTrees c.trees) c.trees).registry ∧
      c.declared = (Registration.ofTrees c.trees).declared := by
  unfold build at h
  cases hread : read documents with
  | error e =>
      rw [hread] at h
      cases h
  | ok trees =>
      rw [hread] at h
      change (if (Registration.ofTrees trees).errors.isEmpty then _ else _) = _ at h
      split at h
      · rename_i herrors
        cases h
        exact ⟨rfl, by simpa using herrors, rfl, rfl⟩
      · cases h

variable {documents : List Document} {c : Compilation}

/-- The types of a compilation come from the declarations in its files. -/
theorem from_of_build (built : build documents = .ok c) : c.registry.From c.sites := by
  rw [(build_eq_ok built).2.2.1]
  exact Completion.from_ofRegistration (Registration.from_ofTrees c.trees) c.trees

/-- The names at the declarations in a compilation are words. -/
theorem named_of_build (built : build documents = .ok c) :
    ∀ s ∈ c.sites, s.Named fun i => Text.IsWord i.name :=
  SourceTree.named_of_mem_flatMap_sites (parse_of_readFrom (build_eq_ok built).1)

/-- The declaration directly around a nested one is in the compilation. -/
theorem mem_sites_parent {s : DeclSite} (hs : s ∈ c.sites) {outer : List TypeDecl} {d : TypeDecl}
    (h : s.containers = outer ++ [d]) : ⟨s.spaces, outer, d⟩ ∈ c.sites := by
  obtain ⟨t, ht, hs⟩ := List.mem_flatMap.1 hs
  exact List.mem_flatMap.2 ⟨t, ht, (SourceTree.mem_sites_parent hs h).1⟩

end Compilation

end Graft
