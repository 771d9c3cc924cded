/-
Module: Graft.Proofs.Program.Alike
Purpose: What lookups see of a registry.
Main exports: Registry.Alike, Registry.Alike.resolve, Registry.Alike.attribute?,
  Registry.Alike.ofUsings, Registry.Alike.inType

A lookup sees which types there are, what they are called and where they stand.  It does not see how
many declarations a type has, nor its members.  So nothing that is looked up changes while types get
further parts and members.
-/
import Graft.Program.Imports
import Graft.Proofs.Lookup.Resolved
import Graft.Proofs.Program.Registered

namespace Graft

/-- Two registries have the same types in the same places; the types may have other parts and
members. -/
structure Registry.Alike (r r' : Registry) : Prop where
  nested : r.nested = r'.nested
  spaces : r.spaces = r'.spaces
  bare : ∀ key, (r.get? key).map TypeEntry.bare = (r'.get? key).map TypeEntry.bare

namespace Registry.Alike

variable {r r' r'' : Registry}

theorem refl (r : Registry) : r.Alike r := ⟨rfl, rfl, fun _ => rfl⟩

theorem symm (h : r.Alike r') : r'.Alike r := ⟨h.nested.symm, h.spaces.symm, fun k => (h.bare k).symm⟩

theorem trans (h : r.Alike r') (h' : r'.Alike r'') : r.Alike r'' :=
  ⟨h.nested.trans h'.nested, h.spaces.trans h'.spaces, fun k => (h.bare k).trans (h'.bare k)⟩

/-- A change of a type that leaves the bare type alone. -/
theorem modify (r : Registry) (key : TypeKey) {f : TypeEntry → TypeEntry}
    (hf : ∀ e, (f e).bare = e.bare) : (r.modify key f).Alike r := by
  refine ⟨?_, ?_, fun k => ?_⟩
  · unfold Registry.modify
    split <;> rfl
  · unfold Registry.modify
    split <;> rfl
  · rw [get?_modify]
    split
    · rename_i hk
      subst hk
      rw [Option.map_map]
      exact Option.map_congr fun e _ => hf e
    · rfl

/-- Many changes that leave the bare types alone. -/
theorem foldl {α : Type} (step : Registry → α → Registry) (hstep : ∀ r a, (step r a).Alike r)
    (list : List α) (r : Registry) : (list.foldl step r).Alike r := by
  induction list generalizing r with
  | nil => exact .refl r
  | cons a rest ih => exact (ih (step r a)).trans (hstep r a)

variable (h : r.Alike r')
include h

theorem map_get? {β : Type} {f : TypeEntry → β} (hf : ∀ e, f e.bare = f e) (key : TypeKey) :
    (r.get? key).map f = (r'.get? key).map f := by
  have hcomp : f ∘ TypeEntry.bare = f := funext hf
  have hmap := congrArg (Option.map f) (h.bare key)
  rw [Option.map_map, Option.map_map, hcomp] at hmap
  exact hmap

theorem any_get? {test : TypeEntry → Bool} (htest : ∀ e, test e.bare = test e) (key : TypeKey) :
    (r.get? key).any test = (r'.get? key).any test := by
  have hmap := h.map_get? htest key
  cases hr : r.get? key <;> cases hr' : r'.get? key <;> rw [hr, hr'] at hmap <;> simp_all

theorem isSome_get? (key : TypeKey) : (r.get? key).isSome = (r'.get? key).isSome := by
  have hmap := congrArg Option.isSome (h.bare key)
  rwa [Option.isSome_map, Option.isSome_map] at hmap

theorem nestedTypes : r.nestedTypes = r'.nestedTypes := by
  funext container
  rw [Registry.nestedTypes, Registry.nestedTypes, h.nested]

theorem isNamed : r.isNamed = r'.isNamed := by
  funext name arity key
  exact h.any_get? (fun _ => rfl) key

theorem findNested? : r.findNested? = r'.findNested? := by
  funext container name arity
  rw [Registry.findNested?, Registry.findNested?, h.nestedTypes, h.isNamed]

theorem findIn? : r.findIn? = r'.findIn? := by
  funext space name arity
  rw [Registry.findIn?, Registry.findIn?, h.spaces, h.isNamed]

/-! ### Names -/

theorem nested? : Lookup.nested? r = Lookup.nested? r' := by
  funext key segments
  induction segments generalizing key with
  | nil => rfl
  | cons segment rest ih =>
      rw [Lookup.nested?, Lookup.nested?, h.findNested?]
      exact congrArg _ (funext fun inner => ih inner)

theorem inSpace? : Lookup.inSpace? r = Lookup.inSpace? r' := by
  funext space segments
  induction segments generalizing space with
  | nil => rfl
  | cons segment rest ih =>
      rw [Lookup.inSpace?, Lookup.inSpace?, h.findIn?, h.nested?, h.spaces]
      simp only [funext fun space => ih space]

theorem imported : Lookup.imported r = Lookup.imported r' := by
  funext level name arity
  rw [Lookup.imported, Lookup.imported, h.findIn?, h.findNested?]

theorem atLevel : Lookup.atLevel r = Lookup.atLevel r' := by
  funext level name arity
  rw [Lookup.atLevel, Lookup.atLevel, h.findIn?, h.imported]

theorem atLevels : Lookup.atLevels r = Lookup.atLevels r' := by
  funext name arity levels
  induction levels with
  | nil => rfl
  | cons level outer ih => rw [Lookup.atLevels, Lookup.atLevels, h.atLevel, ih]

theorem simple : Lookup.simple r = Lookup.simple r' := by
  funext s name arity
  rw [Lookup.simple, Lookup.simple, h.findNested?, h.atLevels]

theorem afterSpace? : Lookup.afterSpace? r = Lookup.afterSpace? r' := by
  funext s first rest
  rw [Lookup.afterSpace?, Lookup.afterSpace?, h.inSpace?, h.spaces]

theorem unqualified : Lookup.unqualified r = Lookup.unqualified r' := by
  funext s segments
  cases segments with
  | nil => rfl
  | cons first rest =>
      rw [Lookup.unqualified, Lookup.unqualified, h.simple, h.nested?, h.afterSpace?]

theorem type : Lookup.type r = Lookup.type r' := by
  funext s n
  rw [Lookup.type, Lookup.type, h.unqualified, h.inSpace?]

theorem attribute? : Lookup.attribute? r = Lookup.attribute? r' := by
  funext s n
  rw [Lookup.attribute?, Lookup.attribute?, h.type]

theorem space? : Lookup.space? r = Lookup.space? r' := by
  funext s path
  rw [Lookup.space?.eq_def, Lookup.space?.eq_def, h.spaces]

theorem isTypeParam : Lookup.isTypeParam r = Lookup.isTypeParam r' := by
  funext s name
  rw [Lookup.isTypeParam, Lookup.isTypeParam]
  exact congrArg (fun test => s.types.any test) (funext fun key => h.any_get? (fun _ => rfl) key)

/-! ### Types -/

theorem sameNames (s : Scope) : Lookup.SameNames r s r' s where
  isTypeParam _ := by rw [h.isTypeParam]
  type _ := by rw [h.type]

theorem resolve (s : Scope) (type : TypeSyntax) :
    Lookup.resolve r s type = Lookup.resolve r' s type := (h.sameNames s).resolve type

/-! ### Scopes -/

theorem import? : ScopeLevel.import? r = ScopeLevel.import? r' := by
  funext s l u
  have hspace : ScopeLevel.spaceTarget? r = ScopeLevel.spaceTarget? r' := by
    funext s target
    rw [ScopeLevel.spaceTarget?, ScopeLevel.spaceTarget?, h.space?]
  have htype : ScopeLevel.typeTarget? r = ScopeLevel.typeTarget? r' := by
    funext s target
    rw [ScopeLevel.typeTarget?, ScopeLevel.typeTarget?, h.resolve]
  rw [ScopeLevel.import?.eq_def, ScopeLevel.import?.eq_def, hspace, htype]

theorem ofUsings : Imports.ofUsings r = Imports.ofUsings r' := by
  have hadd : Imports.add r = Imports.add r' := by
    funext s i u
    rw [Imports.add, Imports.add, h.import?]
  funext space usings outer
  rw [Imports.ofUsings, Imports.ofUsings, hadd]

theorem enterPath : Scope.enterPath r = Scope.enterPath r' := by
  funext usings path s
  induction path generalizing s with
  | nil => rfl
  | cons name rest ih =>
      rw [Scope.enterPath, Scope.enterPath, h.spaces, h.ofUsings]
      simp only [funext fun s => ih s]

/-- The scopes in files that share their directives. -/
theorem inType {f f' : FileScopes} (hf : f.registry = r) (hf' : f'.registry = r')
    (shared : f.shared = f'.shared) (t : SourceTree) :
    f.inType (f.atTop t) = f'.inType (f'.atTop t) := by
  funext site
  have htop : f.atTop t = f'.atTop t := by
    rw [FileScopes.atTop, FileScopes.atTop, shared, FileScopes.ownImports, FileScopes.ownImports, hf,
      hf', h.ofUsings]
  have hspaces : f.inSpaces = f'.inSpaces := by
    funext top spaces
    rw [FileScopes.inSpaces, FileScopes.inSpaces, hf, hf', h.enterPath]
  rw [FileScopes.inType, FileScopes.inType, hspaces, htop]

end Registry.Alike

end Graft
