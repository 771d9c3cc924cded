/-
Module: Graft.Proofs.Lookup.Imports
Purpose: The order and the repetition of imports do not matter to names of types.
Main statements: Scope.SameImports, Resolution.Alike, Lookup.type_alike, Lookup.attribute?_eq,
  Lookup.resolve_eq

All imports of a level are looked at together and repeated candidates count once, so only the set of
imports decides whether a name is found, ambiguous or unknown.
-/
import Mathlib.Data.List.Forall2
import Graft.Proofs.Lookup.Resolved

namespace Graft

/-! ### Outcomes -/

namespace Resolution

variable {α : Type}

/-- The same outcome up to the order of the candidates of an ambiguous name. -/
inductive Alike : Resolution α → Resolution α → Prop where
  | found (value : α) : Alike (.found value) (.found value)
  | ambiguous {values values' : List α} (perm : values.Perm values') :
      Alike (.ambiguous values) (.ambiguous values')
  | notFound : Alike .notFound .notFound

namespace Alike

theorem refl : ∀ a : Resolution α, a.Alike a
  | .found value => .found value
  | .ambiguous values => .ambiguous (.refl values)
  | .notFound => .notFound

theorem toOption {a b : Resolution α} (h : a.Alike b) : a.toOption = b.toOption := by
  cases h <;> rfl

end Alike

variable [DecidableEq α]

theorem mem_distinct {x : α} (kept candidates : List α) :
    x ∈ distinct kept candidates ↔ x ∈ kept ∨ x ∈ candidates := by
  induction candidates generalizing kept with
  | nil => simp [distinct]
  | cons y rest ih =>
      unfold distinct
      split
      · rename_i hkept
        rw [ih, List.mem_cons]
        constructor
        · exact Or.imp_right .inr
        · rintro (h | rfl | h)
          · exact .inl h
          · exact .inl hkept
          · exact .inr h
      · rw [ih, List.mem_append, List.mem_singleton, List.mem_cons, or_assoc]

theorem nodup_distinct {kept : List α} (hkept : kept.Nodup) (candidates : List α) :
    (distinct kept candidates).Nodup := by
  induction candidates generalizing kept with
  | nil => exact hkept
  | cons y rest ih =>
      unfold distinct
      split
      · exact ih hkept
      · rename_i hnew
        refine ih (List.nodup_append.2 ⟨hkept, List.pairwise_singleton _ y, ?_⟩)
        rintro a ha b hb rfl
        exact hnew (List.mem_singleton.1 hb ▸ ha)

/-- Only the set of candidates matters. -/
theorem ofMatches_alike {candidates candidates' : List α}
    (h : ∀ x, x ∈ candidates ↔ x ∈ candidates') :
    (ofMatches candidates).Alike (ofMatches candidates') := by
  have hperm : (distinct [] candidates).Perm (distinct [] candidates') := by
    refine (List.perm_ext_iff_of_nodup (nodup_distinct List.nodup_nil _)
      (nodup_distinct List.nodup_nil _)).2 fun x => ?_
    rw [mem_distinct, mem_distinct, h]
  unfold ofMatches
  generalize distinct [] candidates = left at hperm ⊢
  generalize distinct [] candidates' = right at hperm ⊢
  cases left with
  | nil =>
      rw [List.nil_perm.1 hperm]
      exact .notFound
  | cons a left =>
      cases left with
      | nil =>
          rw [← List.singleton_perm.1 hperm]
          exact .found a
      | cons b left =>
          match right, hperm.length_eq with
          | _ :: _ :: _, _ => exact .ambiguous hperm

end Resolution

/-! ### Scopes -/

/-- The same level with its imports in another order or repeated. -/
structure ScopeLevel.SameImports (l l' : ScopeLevel) : Prop where
  space : l.space = l'.space
  imports : ∀ space, space ∈ l.imports ↔ space ∈ l'.imports
  staticImports : ∀ key, key ∈ l.staticImports ↔ key ∈ l'.staticImports
  aliases : l.aliases = l'.aliases

theorem ScopeLevel.SameImports.refl (l : ScopeLevel) : l.SameImports l :=
  ⟨rfl, fun _ => .rfl, fun _ => .rfl, rfl⟩

/-- The same scope with the imports of its levels in another order or repeated. -/
structure Scope.SameImports (s s' : Scope) : Prop where
  types : s.types = s'.types
  levels : List.Forall₂ ScopeLevel.SameImports s.levels s'.levels

/-- What is found at some level is found at the same level with its imports in another order. -/
theorem ScopeLevel.SameImports.findSome? {β : Type} {f : ScopeLevel → Option β}
    {levels levels' : List ScopeLevel} (h : List.Forall₂ ScopeLevel.SameImports levels levels')
    (hf : ∀ l l', ScopeLevel.SameImports l l' → f l = f l') :
    levels.findSome? f = levels'.findSome? f := by
  induction h with
  | nil => rfl
  | cons hlevel _ ih => rw [List.findSome?_cons, List.findSome?_cons, hf _ _ hlevel, ih]

namespace Scope.SameImports

variable {s s' : Scope}

theorem alias? (h : s.SameImports s') (name : String) : s.alias? name = s'.alias? name :=
  ScopeLevel.SameImports.findSome? h.levels fun _ _ hlevel => by rw [hlevel.aliases]

theorem spaceAlias? (h : s.SameImports s') (name : String) :
    s.spaceAlias? name = s'.spaceAlias? name := by
  rw [Scope.spaceAlias?.eq_def, Scope.spaceAlias?.eq_def, h.alias? name]

end Scope.SameImports

/-! ### Names -/

namespace Lookup

variable {l l' : ScopeLevel} {s s' : Scope}

theorem imported_alike (h : l.SameImports l') (r : Registry) (name : String) (arity : Nat) :
    (imported r l name arity).Alike (imported r l' name arity) := by
  refine Resolution.ofMatches_alike fun key => ?_
  simp only [List.mem_append, List.mem_filterMap, h.imports, h.staticImports]

theorem atLevel_alike (h : l.SameImports l') (r : Registry) (name : String) (arity : Nat) :
    (atLevel r l name arity).Alike (atLevel r l' name arity) := by
  have haliased : aliased? l name arity = aliased? l' name arity := by
    rw [aliased?.eq_def, aliased?.eq_def, h.aliases]
  unfold atLevel
  rw [h.space, haliased]
  split
  · exact .refl _
  · exact imported_alike h r name arity

theorem atLevels_alike {levels levels' : List ScopeLevel}
    (h : List.Forall₂ ScopeLevel.SameImports levels levels') (r : Registry) (name : String)
    (arity : Nat) : (atLevels r name arity levels).Alike (atLevels r name arity levels') := by
  induction h with
  | nil => exact .notFound
  | cons hlevel _ ih =>
      have hinner := atLevel_alike hlevel r name arity
      rw [atLevels, atLevels]
      revert hinner
      generalize atLevel r _ name arity = a
      generalize atLevel r _ name arity = b
      rintro (value | perm | -)
      · exact .found value
      · exact .ambiguous perm
      · exact ih

theorem simple_alike (h : s.SameImports s') (r : Registry) (name : String) (arity : Nat) :
    (simple r s name arity).Alike (simple r s' name arity) := by
  unfold simple
  rw [h.types]
  split
  · exact .refl _
  · exact atLevels_alike h.levels r name arity

theorem afterSpace?_eq (h : s.SameImports s') (r : Registry) (first : String)
    (rest : List TypeSegment) : afterSpace? r s first rest = afterSpace? r s' first rest := by
  have hlevels : ∀ l l' : ScopeLevel, l.SameImports l' →
      (r.spaces.child? l.space first).bind (inSpace? r · rest) =
        (r.spaces.child? l'.space first).bind (inSpace? r · rest) :=
    fun l l' hlevel => by rw [hlevel.space]
  rw [afterSpace?.eq_def, afterSpace?.eq_def, h.spaceAlias? first,
    ScopeLevel.SameImports.findSome? h.levels hlevels]

theorem unqualified_alike (h : s.SameImports s') (r : Registry) (segments : List TypeSegment) :
    (unqualified r s segments).Alike (unqualified r s' segments) := by
  cases segments with
  | nil => exact .notFound
  | cons first rest =>
      have hfirst := simple_alike h r first.name.name first.args.length
      rw [unqualified, unqualified, afterSpace?_eq h]
      revert hfirst
      generalize simple r s first.name.name first.args.length = a
      generalize simple r s' first.name.name first.args.length = b
      rintro (key | perm | -)
      · exact .refl _
      · exact .ambiguous perm
      · exact .refl _

/-- A name of a type stands for the same in both scopes. -/
theorem type_alike (h : s.SameImports s') (r : Registry) (n : NamedType) :
    (type r s n).Alike (type r s' n) := by
  unfold type
  split
  · exact unqualified_alike h r n.segments
  · rename_i qualifier _
    rw [h.spaceAlias? qualifier.name]
    exact .refl _

theorem attribute?_eq (h : s.SameImports s') (r : Registry) (n : NamedType) :
    attribute? r s n = attribute? r s' n := by
  have hname := type_alike h r n
  unfold attribute?
  rw [(type_alike h r (suffixed n "Attribute")).toOption]
  revert hname
  generalize type r s n = a
  generalize type r s' n = b
  rintro (key | - | -) <;> rfl

theorem resolve_eq (h : s.SameImports s') (r : Registry) (type : TypeSyntax) :
    resolve r s type = resolve r s' type := by
  have hnames : SameNames r s r s' := {
    isTypeParam := fun name => by rw [isTypeParam, isTypeParam, h.types]
    type := fun n => (type_alike h r n).toOption }
  exact hnames.resolve type

end Lookup

end Graft
