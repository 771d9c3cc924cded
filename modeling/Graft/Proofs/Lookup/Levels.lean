/-
Module: Graft.Proofs.Lookup.Levels
Purpose: What further namespaces around a scope change about the names in it.
Main statements: Lookup.type_within_of_found, Lookup.outer_level_captures

A simple name that the levels of a scope give a meaning keeps it under every further level.  A
dotted name is different: its first segment is looked for as a type at all levels before it is taken
for a namespace at any, and as an alias at all levels before it is taken for a part of an enclosing
namespace.  So a further level can capture the first segment, and this is the only way in which it
changes what a name stands for.
-/
import Graft.Lookup

namespace Graft

namespace Resolution

variable {α : Type}

/-- The first outcome, or the second one where the first is that nothing was found. -/
def orElse : Resolution α → Resolution α → Resolution α
  | notFound, other => other
  | found value, _ => found value
  | ambiguous values, _ => ambiguous values

@[simp] theorem notFound_orElse (other : Resolution α) : notFound.orElse other = other := rfl

@[simp] theorem found_orElse (value : α) (other : Resolution α) :
    (found value).orElse other = found value := rfl

@[simp] theorem ambiguous_orElse (values : List α) (other : Resolution α) :
    (ambiguous values).orElse other = ambiguous values := rfl

theorem orElse_assoc (a b c : Resolution α) : (a.orElse b).orElse c = a.orElse (b.orElse c) := by
  cases a <;> rfl

end Resolution

/-- The scope with further levels outside all of its own. -/
def Scope.within (s : Scope) (outer : List ScopeLevel) : Scope :=
  { s with levels := s.levels ++ outer }

theorem Scope.alias?_within (s : Scope) (outer : List ScopeLevel) (name : String) :
    (s.within outer).alias? name = (s.alias? name).or (Scope.alias? ⟨[], outer⟩ name) :=
  List.findSome?_append

namespace Lookup

variable {r : Registry} {s : Scope} {outer : List ScopeLevel}

theorem atLevels_cons (r : Registry) (name : String) (arity : Nat) (level : ScopeLevel)
    (outer : List ScopeLevel) :
    atLevels r name arity (level :: outer) =
      (atLevel r level name arity).orElse (atLevels r name arity outer) := by
  rw [atLevels]
  cases atLevel r level name arity <;> rfl

/-- Inner levels win over outer ones. -/
theorem atLevels_append (r : Registry) (name : String) (arity : Nat) (inner outer : List ScopeLevel) :
    atLevels r name arity (inner ++ outer) =
      (atLevels r name arity inner).orElse (atLevels r name arity outer) := by
  induction inner with
  | nil => rfl
  | cons level inner ih =>
      rw [List.cons_append, atLevels_cons, ih, atLevels_cons, Resolution.orElse_assoc]

/-- Further levels matter only for a simple name that stands for nothing. -/
theorem simple_within (r : Registry) (s : Scope) (outer : List ScopeLevel) (name : String)
    (arity : Nat) :
    simple r (s.within outer) name arity =
      (simple r s name arity).orElse (atLevels r name arity outer) := by
  unfold simple
  cases hnested : s.types.findSome? (r.findNested? · name arity) with
  | some key => simp only [Scope.within, hnested, Resolution.found_orElse]
  | none => simp only [Scope.within, hnested, atLevels_append]

/-! ### Captured names -/

/-- Further levels give the first segment of a name a meaning that comes before the namespace it stands
for: that of a type, or that of an alias where the scope has none.  Only a dotted name can be captured,
and only one whose first segment is no type in the scope. -/
def Captures (r : Registry) (s : Scope) (outer : List ScopeLevel) : List TypeSegment → Prop
  | first :: _ :: _ =>
      simple r s first.name.name first.args.length = .notFound ∧
        (atLevels r first.name.name first.args.length outer ≠ .notFound ∨
          (s.alias? first.name.name).isNone ∧ (Scope.spaceAlias? ⟨[], outer⟩ first.name.name).isSome)
  | _ => False

instance (r : Registry) (s : Scope) (outer : List ScopeLevel) (segments : List TypeSegment) :
    Decidable (Captures r s outer segments) :=
  match segments with
  | [] | [_] => inferInstanceAs (Decidable False)
  | _ :: _ :: _ => inferInstanceAs (Decidable (_ ∧ (_ ∨ _ ∧ _)))

variable (r s outer) in
/-- A simple name is never captured. -/
theorem not_captures_simple (segment : TypeSegment) : ¬Captures r s outer [segment] := id

/-- A name whose first segment is a type in the scope is never captured, with type arguments or without. -/
theorem not_captures_of_type {first : TypeSegment} (rest : List TypeSegment)
    (htype : simple r s first.name.name first.args.length ≠ .notFound) :
    ¬Captures r s outer (first :: rest) := by
  cases rest with
  | nil => exact not_captures_simple r s outer first
  | cons next rest => exact fun h => htype h.1

/-- A namespace that is not captured by an alias leads on to the type it led to. -/
theorem afterSpace?_within {first : String} {rest : List TypeSegment} {key : TypeKey}
    (halias : (s.alias? first).isNone → Scope.spaceAlias? ⟨[], outer⟩ first = none)
    (hfound : afterSpace? r s first rest = some key) :
    afterSpace? r (s.within outer) first rest = some key := by
  have hspace : (s.within outer).spaceAlias? first = s.spaceAlias? first := by
    unfold Scope.spaceAlias?
    rw [Scope.alias?_within]
    cases hown : s.alias? first with
    | some target => rfl
    | none => exact halias (by rw [hown]; rfl)
  unfold afterSpace? at hfound ⊢
  rw [hspace]
  cases hown : s.spaceAlias? first with
  | some space =>
      rw [hown] at hfound
      exact hfound
  | none =>
      rw [hown] at hfound
      have hlevels : (s.within outer).levels = s.levels ++ outer := rfl
      simp only at hfound ⊢
      rw [hlevels, List.findSome?_append, hfound]
      rfl

theorem outcome_eq_found {key? : Option TypeKey} {key : TypeKey} (h : outcome key? = .found key) :
    key? = some key := by
  cases key? with
  | none => cases h
  | some other =>
      cases h
      rfl

/-- A name without `alias::` that stands for a type still stands for it under further levels that
do not capture it. -/
theorem unqualified_within {segments : List TypeSegment} {key : TypeKey}
    (hfound : unqualified r s segments = .found key) (hfree : ¬Captures r s outer segments) :
    unqualified r (s.within outer) segments = .found key := by
  cases segments with
  | nil => cases hfound
  | cons first rest =>
      rw [unqualified] at hfound ⊢
      rw [simple_within]
      cases hfirst : simple r s first.name.name first.args.length with
      | found holder =>
          rw [hfirst] at hfound
          exact hfound
      | ambiguous keys =>
          rw [hfirst] at hfound
          cases hfound
      | notFound =>
          simp only [hfirst] at hfound
          split at hfound
          · cases hfound
          · rename_i hdotted
            -- the first segment of a dotted name is a namespace here, and that it is free says that it
            -- gets no other meaning
            cases rest with
            | nil => exact absurd rfl hdotted
            | cons next rest =>
                have houter : atLevels r first.name.name first.args.length outer = .notFound :=
                  Decidable.not_not.1 fun hne => hfree ⟨hfirst, .inl hne⟩
                have halias : (s.alias? first.name.name).isNone →
                    Scope.spaceAlias? ⟨[], outer⟩ first.name.name = none := fun hnone =>
                  Option.not_isSome_iff_eq_none.1 fun hsome => hfree ⟨hfirst, .inr ⟨hnone, hsome⟩⟩
                simp only [houter, Resolution.notFound_orElse]
                rw [if_neg hdotted, afterSpace?_within halias (outcome_eq_found hfound)]
                rfl

/-- Inner levels win: a name without `alias::` that stands for a type still stands for it when
further levels are put around the scope, unless it is dotted and its first segment is a namespace that
they capture with a type or an alias of the same name.  In particular that is so of every simple name
(`not_captures_simple`) and of every name whose first segment is a type, with type arguments or without
(`not_captures_of_type`). -/
theorem type_within_of_found (r : Registry) (s : Scope) (outer : List ScopeLevel) (n : NamedType)
    (key : TypeKey) (hplain : n.alias? = none) (hfound : type r s n = .found key)
    (hfree : ¬Captures r s outer n.segments) :
    type r (s.within outer) n = .found key := by
  unfold type at hfound ⊢
  rw [hplain] at hfound ⊢
  exact unqualified_within hfound hfree

/-! ### A name that further levels capture -/

/-- A class without members. -/
def sampleClass (space : List String) (name : String) (key : TypeKey) : TypeEntry where
  qualified := ⟨name, space⟩
  space := space
  key := key
  kind := .classKind
  origin := .source
  modifiers := .empty
  typeParams := []
  container? := none
  declarations := []
  attributes := []
  members := []

/-- The classes `App.Models.Person` and `Models`. -/
def sampleRegistry : Registry :=
  ([sampleClass ["App", "Models"] "Person" ⟨1⟩, sampleClass [] "Models" ⟨2⟩].foldlM
    Registry.register .empty).toOption.getD .empty

/-- The name `Models.Person`. -/
def sampleName : NamedType :=
  ⟨none, [⟨⟨"Models", .nowhere⟩, []⟩, ⟨⟨"Person", .nowhere⟩, []⟩], .nowhere⟩

/-- The scope inside the namespace `App`. -/
def sampleScope : Scope := ⟨[], [.plain 1]⟩

/-- A level inside `App.Models` with an alias for `App`. -/
def sampleLevel (name : String) : ScopeLevel :=
  ⟨2, [2], [⟨2⟩], Assoc.empty.insert name (.space 1)⟩

/-- The name keeps its meaning under a level whose imports, static imports and aliases have other
names. -/
theorem type_within_of_found_otherNames :
    sampleName.alias? = none ∧ type sampleRegistry sampleScope sampleName = .found ⟨1⟩ ∧
      ¬Captures sampleRegistry sampleScope [sampleLevel "Outer"] sampleName.segments ∧
      type sampleRegistry (sampleScope.within [sampleLevel "Outer"]) sampleName = .found ⟨1⟩ := by
  have hfound : type sampleRegistry sampleScope sampleName = .found ⟨1⟩ := by decide
  have hfree : ¬Captures sampleRegistry sampleScope [sampleLevel "Outer"] sampleName.segments := by decide
  exact ⟨rfl, hfound, hfree, type_within_of_found _ _ _ _ _ rfl hfound hfree⟩

/-- A type `Models` outside the namespace `App` hides the namespace `App.Models` inside it, and so
does an alias `Models` there. -/
theorem outer_level_captures :
    type sampleRegistry sampleScope sampleName = .found ⟨1⟩ ∧
      type sampleRegistry (sampleScope.within [.plain NamespaceTree.root]) sampleName = .notFound ∧
      type sampleRegistry (sampleScope.within [sampleLevel "Models"]) sampleName = .notFound := by
  decide

end Lookup

end Graft
