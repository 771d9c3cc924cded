/-
Module: Graft.Proofs.Program.Qualified
Purpose: What is found by the full names of types from the outermost namespace.
Main exports: Registry.Completed, Registry.Faithful, Registry.Faithful.qualified_segments, Registry.Hidden,
  Registry.Faithful.inSpace?_root_iff

A full name is looked for from the outermost namespace on, and the first type that is met ends the
namespaces.  So a type is found by its full name unless a type is met before its namespace is reached, which
is a type without type parameters that is named like a namespace.
-/
import Graft.Proofs.Program.Complete
import Graft.Proofs.Program.Reached

namespace Graft

/-- What a lookup sees of a segment: its name and the number of its type arguments. -/
def TypeSegment.sign (segment : TypeSegment) : String × Nat := (segment.name.name, segment.args.length)

/-- Nested names one after another. -/
theorem Lookup.nested?_append {r : Registry} (key : TypeKey) (segments rest : List TypeSegment) :
    nested? r key (segments ++ rest) = (nested? r key segments).bind (nested? r · rest) := by
  induction segments generalizing key with
  | nil => rfl
  | cons segment segments ih =>
      rw [List.cons_append, nested?, nested?]
      cases r.findNested? key segment.name.name segment.args.length with
      | none => rfl
      | some inner => exact ih inner

namespace Registry

/-! ### Registries of programs -/

/-- The registries that registration leads to, and those that members, values, attributes and further parts
of types lead to from there. -/
inductive Completed (trees : List SourceTree) : Registry → Prop where
  | registered {r : Registry} (reached : r.Reached trees) : Completed trees r
  | modify {r : Registry} (key : TypeKey) {f : TypeEntry → TypeEntry} (bare : ∀ e, (f e).bare = e.bare)
      (completed : Completed trees r) : Completed trees (r.modify key f)

/-- The types of a registry are indexed and come from declarations whose names are words and
tell different types apart. -/
structure Faithful (sites : List DeclSite) (r : Registry) : Prop where
  indexed : r.Indexed
  declared : r.From sites
  closed : DeclSite.Closed sites
  named : ∀ s ∈ sites, s.Named fun i => Text.IsWord i.name

variable {r : Registry} {trees : List SourceTree} {sites : List DeclSite}

theorem Completed.faithful (completed : r.Completed trees)
    (hread : ∀ t ∈ trees, ∃ id d, SourceTree.parse id d = .ok t)
    (distinct : ∀ s ∈ trees.flatMap (·.sites), ∀ u ∈ trees.flatMap (·.sites), s.key = u.key →
      s.identity = u.identity) :
    r.Faithful (trees.flatMap (·.sites)) := by
  have hspec : r.Indexed ∧ r.From (trees.flatMap (·.sites)) := by
    induction completed with
    | registered reached => exact ⟨reached.spec.1, reached.spec.2.1⟩
    | modify key bare _ ih => exact ⟨ih.1.modify key bare, ih.2.modify key bare⟩
  exact ⟨hspec.1, hspec.2, DeclSite.closed_sites distinct, SourceTree.named_of_mem_flatMap_sites hread⟩

end Registry

/-- The registry of a compilation is one of its trees. -/
theorem Compilation.completed_of_build {documents : List Document} {c : Compilation}
    (built : build documents = .ok c) :
    c.registry.Completed c.trees := by
  obtain ⟨hread, -, hregistry, -⟩ := build_eq_ok built
  have hstart : (Registration.ofTrees c.trees).registry.Completed c.trees :=
    .registered (Registration.reached_ofTrees (parse_of_readFrom hread) (readFrom_eq_ok hread).2)
  rw [hregistry]
  exact Completion.registry_induction hstart
    (fun _ key _ bare completed => completed.modify key bare) c.trees

namespace Registry

variable {r : Registry} {sites : List DeclSite}

/-! ### Types around a type -/

/-- The outermost of a type and the types around it. -/
def outermost? (r : Registry) (key : TypeKey) : Option TypeEntry := (r.chain key).getLast?

namespace Faithful

variable (h : r.Faithful sites)
include h

/-- What holds of the types in namespaces, and of a type if it holds of the one
around it, holds of all types. -/
theorem induct {P : TypeKey → TypeEntry → Prop}
    (top : ∀ key e, r.get? key = some e → e.container? = none → P key e)
    (nested : ∀ key e c holder, r.get? key = some e → e.container? = some c → r.get? c = some holder →
      P c holder → P key e) : ∀ key e, r.get? key = some e → P key e := by
  intro key
  induction key using h.indexed.wellFounded_holds.induction with
  | _ key ih =>
      intro e he
      cases hc : e.container? with
      | none => exact top key e he hc
      | some c =>
          obtain ⟨holder, hholder⟩ := Option.isSome_iff_exists.1 (h.declared.container key e c he hc)
          exact nested key e c holder he hc hholder (ih c ⟨e, he, hc⟩ holder hholder)

theorem outermost?_of_top {key : TypeKey} {e : TypeEntry} (he : r.get? key = some e)
    (top : e.container? = none) :
    r.outermost? key = some e := by
  rw [outermost?, h.indexed.chain_eq he, top]
  rfl

theorem outermost?_of_nested {key c : TypeKey} {e holder : TypeEntry} (he : r.get? key = some e)
    (hc : e.container? = some c) (hholder : r.get? c = some holder) : r.outermost? key = r.outermost? c := by
  have hchain := h.indexed.chain_eq hholder
  rw [outermost?, outermost?, h.indexed.chain_eq he, hc, Option.map_some, Option.getD_some, hchain,
    List.getLast?_cons_cons]

/-- The full name of a type in a namespace is that of the namespace with the name of the type. -/
theorem qualified_segments_of_top {key : TypeKey} {e : TypeEntry} (he : r.get? key = some e)
    (top : e.container? = none) : e.qualified.segments = e.space ++ [e.name] := by
  obtain ⟨s, -, -, declared⟩ := h.declared.declared key e he
  rw [declared.qualified, declared.space, DeclSite.qualified, declared.containers_of_top top, List.map_nil,
    List.append_nil, declared.name]
  rfl

/-- The outermost type stands in a namespace, whose name the full name of each type in it starts with.  The
names of the types on the way come behind that. -/
theorem qualified_segments {key : TypeKey} {e : TypeEntry} (he : r.get? key = some e) :
    ∃ top, r.outermost? key = some top ∧
    e.qualified.segments = top.space ++ (r.nesting key).map Prod.fst := by
  refine h.induct (P := fun key e => ∃ top, r.outermost? key = some top ∧
    e.qualified.segments = top.space ++ (r.nesting key).map Prod.fst) ?_ ?_ key e he
  · intro key e he hnone
    refine ⟨e, h.outermost?_of_top he hnone, ?_⟩
    rw [h.qualified_segments_of_top he hnone, h.indexed.nesting_eq he, hnone]
    rfl
  · intro key e c holder he hc hholder ih
    obtain ⟨top, htop, hsegments⟩ := ih
    refine ⟨top, (h.outermost?_of_nested he hc hholder).trans htop, ?_⟩
    rw [QualifiedName.segments, h.declared.qualified_path h.closed h.named he hc hholder, hsegments,
      h.indexed.nesting_eq he, hc, Option.map_some, Option.getD_some, List.map_append, List.append_assoc]
    rfl

/-- The names in a full name are words. -/
theorem word_of_mem_segments {key : TypeKey} {e : TypeEntry} (he : r.get? key = some e) :
    ∀ segment ∈ e.qualified.segments, Text.IsWord segment := by
  obtain ⟨s, hs, -, declared⟩ := h.declared.declared key e he
  rw [declared.qualified, ← DeclSite.names_fullName]
  exact List.forall_mem_map.2 (h.named s hs).fullName

/-! ### Names in types -/

/-- Nested names lead to types within the same outermost type. -/
theorem outermost?_of_nested? {segments : List TypeSegment} {root key : TypeKey}
    (there : (r.get? root).isSome) (hnested : Lookup.nested? r root segments = some key) :
    r.outermost? key = r.outermost? root := by
  induction segments generalizing root with
  | nil =>
      obtain rfl := Option.some.inj hnested
      rfl
  | cons segment rest ih =>
      rw [Lookup.nested?] at hnested
      obtain ⟨inner, hinner, hrest⟩ := Option.bind_eq_some_iff.1 hnested
      obtain ⟨e, he, hc, -⟩ := (h.indexed.findNested?_eq_some_iff (h.declared.distinct h.closed)).1 hinner
      obtain ⟨holder, hholder⟩ := Option.isSome_iff_exists.1 there
      rw [ih (Option.isSome_of_eq_some he) hrest, h.outermost?_of_nested he hc hholder]

/-- A type is found by the names of the types around it and its own, from the outermost of them on. -/
theorem nested?_nesting {key : TypeKey} {e : TypeEntry} (he : r.get? key = some e) :
    ∃ root top inner, r.get? root = some top ∧ top.container? = none ∧ r.outermost? key = some top ∧
      r.nesting key = (top.name, top.arity) :: inner ∧
      ∀ segments : List TypeSegment, segments.map TypeSegment.sign = inner →
        Lookup.nested? r root segments = some key := by
  refine h.induct (P := fun key _ => ∃ root top inner, r.get? root = some top ∧ top.container? = none ∧
    r.outermost? key = some top ∧ r.nesting key = (top.name, top.arity) :: inner ∧
    ∀ segments : List TypeSegment, segments.map TypeSegment.sign = inner →
      Lookup.nested? r root segments = some key) ?_ ?_ key e he
  · intro key e he hnone
    refine ⟨key, e, [], he, hnone, h.outermost?_of_top he hnone, ?_, fun segments hnil => ?_⟩
    · rw [h.indexed.nesting_eq he, hnone]
      rfl
    · rw [List.map_eq_nil_iff.1 hnil]
      rfl
  · intro key e c holder he hc hholder ih
    obtain ⟨root, top, inner, hroot, hnone, htop, hnesting, hfound⟩ := ih
    refine ⟨root, top, inner ++ [(e.name, e.arity)], hroot, hnone,
      (h.outermost?_of_nested he hc hholder).trans htop, ?_, fun segments hsegments => ?_⟩
    · rw [h.indexed.nesting_eq he, hc, Option.map_some, Option.getD_some, hnesting, List.cons_append]
    · obtain ⟨first, last, rfl, hfirst, hlast⟩ := List.map_eq_append_iff.1 hsegments
      obtain ⟨segment, rest, rfl, hsign, hrest⟩ := List.map_eq_cons_iff.1 hlast
      obtain rfl := List.map_eq_nil_iff.1 hrest
      obtain ⟨hname, harity⟩ := Prod.mk.inj hsign
      rw [Lookup.nested?_append, hfound first hfirst, Option.bind_some, Lookup.nested?]
      exact Option.bind_eq_some_iff.2
        ⟨key, (h.indexed.findNested?_eq_some_iff (h.declared.distinct h.closed)).2
        ⟨e, he, hc, hname.symm, harity.symm⟩, rfl⟩

end Faithful

/-! ### Names from the outermost namespace -/

/-- A namespace around the type has the name of a type without type parameters in a namespace,
which is met in its place. -/
def Hidden (r : Registry) (key : TypeKey) : Prop :=
  ∃ top, r.outermost? key = some top ∧ ∃ other e, r.get? other = some e ∧ e.container? = none ∧ e.arity = 0 ∧
    e.qualified.segments <+: top.space

namespace Faithful

variable (h : r.Faithful sites)
include h

/-- The types that a namespace offers under a name are those with its path before that name. -/
theorem findIn?_eq_some_iff_segments {path : List String} {node : NamespaceId}
    (hnode : r.spaces.find? path = some node) (name : String) (arity : Nat) (key : TypeKey) :
      r.findIn? node name arity = some key ↔
      ∃ e, r.get? key = some e ∧ e.container? = none ∧ e.arity = arity ∧
      e.qualified.segments = path ++ [name] := by
  rw [h.indexed.findIn?_eq_some_iff (h.declared.distinct h.closed)]
  refine exists_congr fun e => and_congr_right fun he => and_congr_right fun top => ?_
  rw [h.qualified_segments_of_top he top]
  refine ⟨fun ⟨hhome, hname, harity⟩ => ⟨harity, ?_⟩, fun ⟨harity, hsegments⟩ => ?_⟩
  · rw [NamespaceTree.find?_inj hhome hnode, hname]
  · obtain ⟨hspace, hname⟩ := List.append_inj' hsegments rfl
    exact ⟨by rw [hspace, hnode], (List.singleton_inj.1 hname), harity⟩

/-- On the way to the namespace of a type, the type is found unless another one is met before. -/
theorem inSpace?_iff {key : TypeKey} {e top : TypeEntry} (he : r.get? key = some e)
    (htop : r.outermost? key = some top) (rest : List String) :
    ∀ (before : List String) (node : NamespaceId) (segments : List TypeSegment),
      r.spaces.find? before = some node →
      top.space = before ++ rest → segments.map TypeSegment.sign = rest.map (·, 0) ++ r.nesting key →
      (Lookup.inSpace? r node segments = some key ↔
        ¬∃ other e, r.get? other = some e ∧ e.container? = none ∧ e.arity = 0 ∧
          e.qualified.segments <+: top.space ∧ before.length < e.qualified.segments.length) := by
  obtain ⟨root, top', inner, hroot, hnone, htop', hnesting, hfound⟩ := h.nested?_nesting he
  obtain rfl := Option.some.inj (htop'.symm.trans htop)
  have distinct := h.declared.distinct h.closed
  induction rest with
  | nil =>
      -- the namespace of the type is reached
      intro before node segments hnode hspace hsegments
      rw [List.append_nil] at hspace
      rw [List.map_nil, List.nil_append, hnesting] at hsegments
      obtain ⟨segment, later, rfl, hsign, hlater⟩ := List.map_eq_cons_iff.1 hsegments
      obtain ⟨hname, harity⟩ := Prod.mk.inj hsign
      have hfirst : r.findIn? node segment.name.name segment.args.length = some root :=
        (h.indexed.findIn?_eq_some_iff distinct).2
          ⟨top', hroot, hnone, by rw [hspace, hnode], hname.symm, harity.symm⟩
      rw [Lookup.inSpace?, hfirst]
      refine iff_of_true (hfound later hlater) ?_
      rintro ⟨other, e, -, -, -, hprefix, hlonger⟩
      rw [hspace] at hprefix
      exact absurd hprefix.length_le (Nat.not_le.2 hlonger)
  | cons name rest ih =>
      intro before node segments hnode hspace hsegments
      obtain ⟨segment, later, rfl, hsign, hlater⟩ := List.map_eq_cons_iff.1 hsegments
      obtain ⟨rfl, harity⟩ := Prod.mk.inj hsign
      have hargs : segment.args.isEmpty = true := List.isEmpty_iff_length_eq_zero.2 harity
      have hpath : top'.space = before ++ [segment.name.name] ++ rest := by
        rw [hspace, List.append_assoc, List.singleton_append]
      have hmet := h.findIn?_eq_some_iff_segments hnode segment.name.name 0
      rw [Lookup.inSpace?, harity]
      cases hfirst : r.findIn? node segment.name.name 0 with
      | some other =>
          -- a type is met that does not hold the one that is looked for
          obtain ⟨e', he', htop'', harity', hsegments'⟩ := (hmet other).1 hfirst
          refine iff_of_false (fun hnested => ?_) (not_not.2 ⟨other, e', he', htop'', harity', ?_, ?_⟩)
          · have hsame := h.outermost?_of_nested? (Option.isSome_of_eq_some he') hnested
            rw [htop, h.outermost?_of_top he' htop''] at hsame
            obtain rfl := Option.some.inj hsame
            rw [h.qualified_segments_of_top he' htop''] at hsegments'
            have hlength := congrArg List.length (hspace.symm.trans (List.append_inj' hsegments' rfl).1)
            simp at hlength
          · rw [hsegments', hpath]
            exact List.prefix_append _ _
          · rw [hsegments', List.length_append]
            exact Nat.lt_succ_self _
      | none =>
          have hhome := h.indexed.housed root top' hroot hnone
          rw [hpath] at hhome
          obtain ⟨child, hchild⟩ := Option.isSome_iff_exists.1 (NamespaceTree.isSome_find?_of_append hhome)
          have hnext : r.spaces.child? node segment.name.name = some child := by
            rw [NamespaceTree.find?_concat, hnode] at hchild
            exact hchild
          dsimp only
          rw [if_pos hargs, hnext, Option.bind_some, ih _ child later hchild hpath hlater,
            List.length_append, List.length_singleton]
          refine not_congr (exists_congr fun other => exists_congr fun e' => ?_)
          refine and_congr_right fun he' => and_congr_right fun htop'' => and_congr_right fun harity' =>
            and_congr_right fun hprefix => ⟨fun hlonger => Nat.lt_of_succ_lt hlonger, fun hlonger => ?_⟩
          refine Nat.lt_of_le_of_ne hlonger fun hlength => ?_
          -- a type with this name would have been met
          have hsame : before ++ [segment.name.name] = e'.qualified.segments :=
            (List.prefix_of_prefix_length_le ⟨rest, hpath.symm⟩ hprefix
              (by simpa using hlength.le)).eq_of_length (by simpa using hlength)
          have hfound' := (hmet other).2 ⟨e', he', htop'', harity', hsame.symm⟩
          rw [hfirst] at hfound'
          cases hfound'

/-- From the outermost namespace on, a type is found by its full name exactly if it is not hidden. -/
theorem inSpace?_root_iff {key : TypeKey} {e top : TypeEntry} (he : r.get? key = some e)
    (htop : r.outermost? key = some top) {segments : List TypeSegment}
    (hsegments : segments.map TypeSegment.sign = top.space.map (·, 0) ++ r.nesting key) :
    Lookup.inSpace? r NamespaceTree.root segments = some key ↔ ¬r.Hidden key := by
  rw [h.inSpace?_iff he htop top.space [] NamespaceTree.root segments rfl rfl hsegments]
  refine not_congr ⟨?_, ?_⟩
  · rintro ⟨other, e', he', hnone, harity, hprefix, -⟩
    exact ⟨top, htop, other, e', he', hnone, harity, hprefix⟩
  · rintro ⟨top', htop', other, e', he', hnone, harity, hprefix⟩
    obtain rfl := Option.some.inj (htop'.symm.trans htop)
    exact ⟨other, e', he', hnone, harity, hprefix, by simp [QualifiedName.segments]⟩

end Faithful

end Registry

end Graft
