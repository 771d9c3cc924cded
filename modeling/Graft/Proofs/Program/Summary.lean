/-
Module: Graft.Proofs.Program.Summary
Purpose: What declarations of one type say together, and when they can be parts of one type.
Main exports: TypeSummary, TypeSummary.ofParts_perm, DeclPlace.Consistent,
  DeclPlace.consistent_iff_pairwise

Declarations of a type have to agree on its kind and its origin and all be partial; their modifiers are
put together.  Where any two agree, what they say together is the same in every order.
-/
import Mathlib.Data.List.Pairwise
import Mathlib.Data.List.Perm.Basic
import Graft.Proofs.Program.Attributes

namespace Graft

/-! ### What declarations of a type say together -/

namespace Modifiers

theorem empty_union (m : Modifiers) : empty.union m = m := by
  simp [empty, union]

instance : RightCommutative Modifiers.union :=
  ⟨fun m n o => by rw [union_assoc, union_comm n, ← union_assoc]⟩

end Modifiers

/-- What declarations of a type have to agree on, and their modifiers. -/
structure TypeSummary where
  kind : TypeKind
  origin : Origin
  modifiers : Modifiers
deriving DecidableEq, Repr

namespace TypeSummary

/-- The summary of a further declaration is taken in. -/
def merge (s t : TypeSummary) : TypeSummary := { s with modifiers := s.modifiers.union t.modifiers }

/-- Two declarations can be parts of one type. -/
def Agrees (s t : TypeSummary) : Prop :=
  s.modifiers.isPartial ∧ t.modifiers.isPartial ∧ s.kind = t.kind ∧ s.origin = t.origin

instance (s t : TypeSummary) : Decidable (s.Agrees t) := by
  unfold Agrees
  infer_instance

theorem Agrees.symm {s t : TypeSummary} (h : s.Agrees t) : t.Agrees s :=
  ⟨h.2.1, h.1, h.2.2.1.symm, h.2.2.2.symm⟩

instance : Std.Symm Agrees := ⟨fun _ _ => Agrees.symm⟩

/-- Two summaries have one kind and one origin, and both or none are partial. -/
structure Like (s t : TypeSummary) : Prop where
  kind : s.kind = t.kind
  origin : s.origin = t.origin
  isPartial : s.modifiers.isPartial = t.modifiers.isPartial

theorem Agrees.like {s t : TypeSummary} (h : s.Agrees t) : s.Like t :=
  ⟨h.2.2.1, h.2.2.2, h.1.trans h.2.1.symm⟩

/-- A summary agrees with what its likes agree with. -/
theorem Like.agrees_iff {s t : TypeSummary} (like : s.Like t) (u : TypeSummary) :
    s.Agrees u ↔ t.Agrees u := by
  rw [Agrees, Agrees, like.kind, like.origin, like.isPartial]

/-- What declarations say together: the kind and the origin of the first, and all modifiers. -/
def ofParts : List TypeSummary → Option TypeSummary
  | [] => none
  | first :: rest => some (rest.foldl merge first)

theorem isSome_ofParts {list : List TypeSummary} (h : list ≠ []) : (ofParts list).isSome := by
  cases list with
  | nil => exact absurd rfl h
  | cons first rest => rfl

/-- One more declaration is taken in after the others. -/
theorem ofParts_concat (list : List TypeSummary) (s : TypeSummary) :
    ofParts (list ++ [s]) = some (((ofParts list).map (·.merge s)).getD s) := by
  cases list with
  | nil => rfl
  | cons first rest =>
      rw [List.cons_append, ofParts, List.foldl_append]
      rfl

/-- Declarations of which any two agree say together what each of them says, but for modifiers. -/
theorem like_of_ofParts {list : List TypeSummary} (agree : list.Pairwise Agrees) {t : TypeSummary}
    (h : ofParts list = some t) : ∀ s ∈ list, t.Like s := by
  cases list with
  | nil => cases h
  | cons first rest =>
      obtain ⟨hfirst, -⟩ := List.pairwise_cons.1 agree
      have hmerge : ∀ (others : List TypeSummary) (u : TypeSummary), (∀ s ∈ others, u.Agrees s) →
          (others.foldl merge u).Like u := by
        intro others
        induction others with
        | nil => exact fun u _ => ⟨rfl, rfl, rfl⟩
        | cons s others ih =>
            intro u hu
            have hpartial : u.modifiers.isPartial := (hu s List.mem_cons_self).1
            have hunion : (u.merge s).modifiers.isPartial := Modifiers.isPartial_union_left hpartial _
            have hlike := ih (u.merge s) fun v hv =>
              ⟨hunion, (hu v (List.mem_cons_of_mem _ hv)).2⟩
            exact ⟨hlike.kind, hlike.origin, hlike.isPartial.trans (hunion.trans hpartial.symm)⟩
      have htogether : t.Like first := by
        rw [← Option.some.inj h]
        exact hmerge rest first hfirst
      intro s hs
      rcases List.mem_cons.1 hs with rfl | hs
      · exact htogether
      · have hlike := (hfirst s hs).like
        exact ⟨htogether.kind.trans hlike.kind, htogether.origin.trans hlike.origin,
          htogether.isPartial.trans hlike.isPartial⟩

/-- Of declarations that agree with one another each agrees with itself as well, unless there is only one. -/
theorem agrees_of_pairwise {list : List TypeSummary} (agree : list.Pairwise Agrees)
    (several : list.length ≠ 1) :
    ∀ s ∈ list, ∀ t ∈ list, s.Agrees t := by
  have hself : ∀ s ∈ list, s.Agrees s := by
    intro s hs
    -- another declaration agrees with this one, so this one is partial
    obtain ⟨t, hagrees⟩ : ∃ t, s.Agrees t := by
      cases list with
      | nil => cases hs
      | cons first rest =>
          obtain ⟨hfirst, -⟩ := List.pairwise_cons.1 agree
          rcases List.mem_cons.1 hs with rfl | hs
          · obtain ⟨t, ht⟩ := List.exists_mem_of_ne_nil rest fun hnil => several (by rw [hnil]; rfl)
            exact ⟨t, hfirst t ht⟩
          · exact ⟨first, (hfirst s hs).symm⟩
    exact ⟨hagrees.1, hagrees.1, rfl, rfl⟩
  exact List.Pairwise.forall_of_forall hself agree

/-- The modifiers of declarations together are all of theirs. -/
theorem modifiers_of_ofParts {list : List TypeSummary} {t : TypeSummary} (h : ofParts list = some t) :
    t.modifiers = (list.map (·.modifiers)).foldl Modifiers.union .empty := by
  cases list with
  | nil => cases h
  | cons first rest =>
      rw [← Option.some.inj h, List.map_cons, List.foldl_cons, Modifiers.empty_union]
      clear h
      induction rest generalizing first with
      | nil => rfl
      | cons s rest ih => exact ih (first.merge s)

/-- What declarations of which any two agree say together does not depend on their order. -/
theorem ofParts_perm {list list' : List TypeSummary} (perm : list'.Perm list)
    (agree : list.Pairwise Agrees) : ofParts list' = ofParts list := by
  have agree' : list'.Pairwise Agrees := (perm.pairwise_iff Agrees.symm).2 agree
  by_cases hnil : list = []
  · rw [hnil] at perm
    rw [hnil, List.perm_nil.1 perm]
  · obtain ⟨s, hs⟩ := List.exists_mem_of_ne_nil _ hnil
    obtain ⟨t, ht⟩ := Option.isSome_iff_exists.1 (isSome_ofParts hnil)
    have hnil' : list' ≠ [] := List.ne_nil_of_mem (perm.mem_iff.2 hs)
    obtain ⟨t', ht'⟩ := Option.isSome_iff_exists.1 (isSome_ofParts hnil')
    have like := like_of_ofParts agree ht s hs
    have like' := like_of_ofParts agree' ht' s (perm.mem_iff.2 hs)
    have hmodifiers : t'.modifiers = t.modifiers := by
      rw [modifiers_of_ofParts ht, modifiers_of_ofParts ht']
      exact (perm.map _).foldl_eq _
    have heq : t' = t := by
      obtain ⟨kind, origin, modifiers⟩ := t
      obtain ⟨kind', origin', modifiers'⟩ := t'
      obtain rfl : modifiers' = modifiers := hmodifiers
      rw [TypeSummary.mk.injEq]
      exact ⟨like'.kind.trans like.kind.symm, like'.origin.trans like.origin.symm, rfl⟩
    rw [ht, ht', heq]

end TypeSummary

/-- What the declarations of a type say together. -/
def TypeEntry.summary (e : TypeEntry) : TypeSummary := ⟨e.kind, e.origin, e.modifiers⟩

/-- A declaration is a further part of a type exactly if it agrees with what is known of the type. -/
theorem TypeEntry.continuedBy_iff {e : TypeEntry} {origin : Origin} {d : TypeDecl} :
    e.continuedBy origin d ↔ e.summary.Agrees ⟨d.kind, origin, d.modifiers⟩ := by
  simp only [continuedBy, TypeSummary.Agrees, summary, Bool.and_eq_true, decide_eq_true_eq, and_assoc]

/-! ### Declarations of trees -/

namespace DeclPlace

/-- The declarations of documents have numbers of their own. -/
theorem nodup_ids_of_read {documents : List Document} {trees : List SourceTree}
    (h : Compilation.read documents = .ok trees) : ((ofTrees trees).map (·.site.decl.id)).Nodup := by
  obtain ⟨htrees, hnodup⟩ := Compilation.readFrom_eq_ok h
  have hids := Compilation.nodup_ids (fun t ht => ?_) hnodup
  · rwa [ids_ofTrees]
  · obtain ⟨-, -, d, -, hparse, -⟩ := htrees t ht
    exact ⟨d, hparse⟩

/-- What a declaration says of its type. -/
def summary (p : DeclPlace) : TypeSummary := ⟨p.site.decl.kind, p.tree.origin, p.site.decl.modifiers⟩

/-- The declarations with a key. -/
def withKey (places : List DeclPlace) (key : TypeKey) : List DeclPlace := places.filter (·.site.key = key)

/-- Two declarations with one key can be parts of one type. -/
def Fits (p q : DeclPlace) : Prop := p.site.key = q.site.key → p.summary.Agrees q.summary

theorem Fits.symm {p q : DeclPlace} (h : p.Fits q) : q.Fits p := fun hkey => (h hkey.symm).symm

/-- Of every identity there is only one declaration, or all declarations are partial and have one kind and
one origin. -/
def Consistent (places : List DeclPlace) : Prop :=
  ∀ name ∈ places.map (·.site.identity),
    places.countP (·.site.identity = name) = 1 ∨
    ∀ p ∈ places, ∀ q ∈ places, p.site.identity = name → q.site.identity = name →
      p.summary.Agrees q.summary

instance (places : List DeclPlace) : Decidable (Consistent places) := by
  unfold Consistent
  infer_instance

/-- Where only one identity has a key, declarations are consistent exactly if any two fit. -/
theorem consistent_iff_pairwise {places : List DeclPlace}
    (distinct : ∀ p ∈ places, ∀ q ∈ places, p.site.key = q.site.key → p.site.identity = q.site.identity) :
    Consistent places ↔ places.Pairwise Fits := by
  constructor
  · intro consistent
    rw [List.pairwise_iff_forall_sublist]
    intro p q hsublist hkey
    have hp : p ∈ places := hsublist.subset List.mem_cons_self
    have hq : q ∈ places := hsublist.subset (List.mem_cons_of_mem _ List.mem_cons_self)
    have hidentity := distinct p hp q hq hkey
    rcases consistent p.site.identity (List.mem_map_of_mem hp) with hone | hall
    · have htwo := hsublist.countP_le (p := (·.site.identity = p.site.identity))
      rw [hone, List.countP_cons_of_pos (by simp), List.countP_cons_of_pos (by simp [hidentity])] at htwo
      simp at htwo
    · exact hall p hp q hq rfl hidentity.symm
  · intro fits name _
    refine Classical.or_iff_not_imp_left.2 fun hcount => ?_
    have agree : (places.filter (·.site.identity = name)).Pairwise fun p q =>
        p.summary.Agrees q.summary := by
      refine (fits.filter _).imp_of_mem fun {p q} hp hq hfits => hfits ?_
      rw [List.mem_filter, decide_eq_true_eq] at hp hq
      rw [DeclSite.key, DeclSite.key, hp.2, hq.2]
    rw [List.countP_eq_length_filter, ← List.length_map] at hcount
    intro p hp q hq hpname hqname
    exact TypeSummary.agrees_of_pairwise (List.pairwise_map.2 agree) hcount
      _ (List.mem_map_of_mem (List.mem_filter.2 ⟨hp, by simpa using hpname⟩))
      _ (List.mem_map_of_mem (List.mem_filter.2 ⟨hq, by simpa using hqname⟩))

end DeclPlace

end Graft
