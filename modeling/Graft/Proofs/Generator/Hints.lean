/-
Module: Graft.Proofs.Generator.Hints
Purpose: The names of artifacts and the identities of the classes they are for.
Main exports: SourceModel.Knows, Compilation.contained_of_build, Compilation.Faithful,
  Compilation.segments_of_synthesizeType, Compilation.hint_of_synthesizeType

The name of an artifact is put together from the types that are found around the class by their keys.
It is the identity of the class if a key stands for one chain of names only.  In a compilation there is no
endless chain of types, as a type is registered after the one around it.
-/
import Graft.Generator.Pass
import Graft.Proofs.Generator.Containers
import Graft.Proofs.Program.Attributes
import Graft.Proofs.Program.Indexed

namespace Graft

/-- What a class is made of. -/
theorem SourceModel.exists_of_synthesizeType {m : SourceModel} {types : WellKnownTypes} {e : TypeEntry}
    {result : SynthesizedClass} (h : m.synthesizeType types e = .ok result) : ∃ properties,
      (e.attributes.filter (·.isOf types.marker)).mapM (m.copyProperty types.repository) = .ok properties ∧
      result = ⟨e.key, e.qualified, e.space, m.containerHeaders e,
        { e.partialHeader with accessibility? := e.partialHeader.accessibility? <|> some "public" },
          properties⟩ := by
  unfold synthesizeType at h
  dsimp only at h
  cases hproperties : (e.attributes.filter (·.isOf types.marker)).mapM (m.copyProperty types.repository) with
  | error cause =>
      rw [hproperties] at h
      cases h
  | ok properties =>
      rw [hproperties] at h
      exact ⟨properties, rfl, (Except.ok.inj h).symm⟩

/-- A class has the place, the names and the type parameters of its type. -/
theorem SourceModel.fields_of_synthesizeType {m : SourceModel} {types : WellKnownTypes} {e : TypeEntry}
    {result : SynthesizedClass} (h : m.synthesizeType types e = .ok result) :
    result.space = e.space ∧ result.containers = m.containerHeaders e ∧ result.header.name = e.name ∧
      result.header.typeParams = e.typeParams := by
  obtain ⟨properties, -, rfl⟩ := exists_of_synthesizeType h
  exact ⟨rfl, rfl, rfl, rfl⟩

/-! ### Hosts with the types of a registry -/

/-- A model has the types of a registry, perhaps with more members and attributes. -/
def SourceModel.Knows (m : SourceModel) (r : Registry) : Prop :=
  ∀ key, (m.entry? key).map TypeEntry.bare = (r.get? key).map TypeEntry.bare

namespace SourceModel.Knows

variable {m : SourceModel} {r : Registry} (knows : m.Knows r) {key : TypeKey} {e : TypeEntry}
include knows

theorem entry (he : r.get? key = some e) : ∃ e', m.entry? key = some e' ∧ e'.bare = e.bare := by
  have hknown := knows key
  rw [he] at hknown
  exact Option.map_eq_some_iff.1 hknown

theorem registered (he : m.entry? key = some e) : ∃ old, r.get? key = some old ∧ e.bare = old.bare := by
  have hknown := knows key
  rw [he] at hknown
  obtain ⟨old, hold, hbare⟩ := Option.map_eq_some_iff.1 hknown.symm
  exact ⟨old, hold, hbare.symm⟩

/-- A host with the types of a registry has no endless chain of types. -/
theorem contained (indexed : r.Indexed) : m.Contained := by
  refine Subrelation.wf (fun {outer key} h => ?_) indexed.wellFounded_holds
  obtain ⟨e, he, houter⟩ := h
  obtain ⟨old, hold, hbare⟩ := knows.registered he
  exact ⟨old, hold, ((congrArg TypeEntry.container? hbare :) : e.container? = old.container?) ▸ houter⟩

end SourceModel.Knows

/-- A compilation knows the types that were registered for it. -/
theorem Compilation.knows_of_build {documents : List Document} {c : Compilation}
    (built : build documents = .ok c) :
    c.model.Knows (Registration.ofTrees c.trees).registry := by
  intro key
  have alike := Completion.alike_ofRegistration (Registration.ofTrees c.trees) c.trees
  rw [← (build_eq_ok built).2.2.1] at alike
  exact alike.bare key

/-- No chain of types around a type of a compilation is endless. -/
theorem Compilation.contained_of_build {documents : List Document} {c : Compilation}
    (built : build documents = .ok c) :
    c.model.Contained :=
  (knows_of_build built).contained (Registration.indexed_ofTrees c.trees)

namespace Compilation

/-- A key stands for one type: the declarations that have it declare the same type. -/
def Faithful (c : Compilation) : Prop :=
  ∀ s ∈ c.sites, ∀ t ∈ c.sites, s.key = t.key → s.SameType t

variable {documents : List Document} {c : Compilation} (built : build documents = .ok c)
include built

/-- In a faithful compilation a type is declared at every place that has its key. -/
theorem sameType_of_get? (faithful : c.Faithful) {t : DeclSite} (ht : t ∈ c.sites) {e : TypeEntry}
    (he : c.registry.get? t.key = some e) : ∃ s, e.DeclaredAt s ∧ s.SameType t := by
  obtain ⟨s, hs, hkey, declared⟩ := (from_of_build built).declared t.key e he
  exact ⟨s, declared, faithful s hs t ht hkey⟩

/-- The headers around a type are those of the declarations around it. -/
theorem segments_containerHeaders (faithful : c.Faithful) (containers : List TypeDecl) :
    ∀ {t : DeclSite}, t ∈ c.sites → t.containers = containers →
      ∀ {e : TypeEntry}, c.registry.get? t.key = some e →
        (c.model.containerHeaders e).map (·.segment) = containers.map DeclSite.segmentOf := by
  induction containers using List.reverseRecOn with
  | nil =>
      intro t ht htop e he
      obtain ⟨s, declared, same⟩ := sameType_of_get? built faithful ht he
      have hnone : e.container? = none :=
        declared.container?.trans (same.container?.trans (DeclSite.container?_of_top htop))
      rw [SourceModel.containerHeaders_of_top hnone]
      rfl
  | append_singleton outer d ih =>
      intro t ht hnested e he
      obtain ⟨s, declared, same⟩ := sameType_of_get? built faithful ht he
      -- the type around `t` is declared at the parent of `t`, which has its key
      let parent : DeclSite := ⟨t.spaces, outer, d⟩
      have hparent : parent ∈ c.sites := mem_sites_parent ht hnested
      have hsome : e.container? = some parent.key :=
        declared.container?.trans (same.container?.trans (DeclSite.container?_of_nested hnested))
      obtain ⟨holder, hholder⟩ := Option.isSome_iff_exists.1
        ((from_of_build built).container t.key e parent.key he hsome)
      obtain ⟨s', declared', same'⟩ := sameType_of_get? built faithful hparent hholder
      have hsegment : holder.partialHeader.segment = DeclSite.segmentOf d := by
        have hname : holder.name = d.name.name :=
          (congrArg QualifiedName.name declared'.qualified).trans same'.name
        have harity : holder.typeParams.length = d.arity := by
          rw [declared'.typeParams]
          exact (List.length_map _).trans same'.arity
        rw [TypeHeader.segment, TypeEntry.partialHeader, DeclSite.segmentOf, hname, harity]
      rw [(contained_of_build built).containerHeaders_within hsome hholder, List.map_append,
        ih hparent rfl hholder, List.map_singleton, hsegment, List.map_append, List.map_singleton]

/-- The metadata name of a class is made of the names where it is declared. -/
theorem segments_of_synthesizeType (faithful : c.Faithful) {t : DeclSite} (ht : t ∈ c.sites)
    {e : TypeEntry} (he : c.registry.get? t.key = some e) {types : WellKnownTypes}
    {result : SynthesizedClass} (h : c.model.synthesizeType types e = .ok result) :
    result.segments = t.path ++ (t.containers ++ [t.decl]).map DeclSite.segmentOf := by
  obtain ⟨s, declared, same⟩ := sameType_of_get? built faithful ht he
  obtain ⟨hspace, hcontainers, hname, hparams⟩ := SourceModel.fields_of_synthesizeType h
  have houter := segments_containerHeaders built faithful t.containers ht rfl he
  have hown : result.header.segment = DeclSite.segmentOf t.decl := by
    have hdecl : e.name = t.decl.name.name :=
      (congrArg QualifiedName.name declared.qualified).trans same.name
    have harity : e.typeParams.length = t.decl.arity := by
      rw [declared.typeParams]
      exact (List.length_map _).trans same.arity
    rw [TypeHeader.segment, DeclSite.segmentOf, hname, hparams, hdecl, harity]
  rw [SynthesizedClass.segments, SynthesizedClass.headers, hspace, hcontainers, declared.space,
    same.path, List.map_append, houter, List.map_append]
  simp [hown]

/-- The name of an artifact is the identity of its class, with the suffix of the settings. -/
theorem hint_of_synthesizeType (faithful : c.Faithful) {config : GeneratorConfig}
    (naming : config.naming = .qualified) {t : DeclSite} (ht : t ∈ c.sites) {e : TypeEntry}
    (he : c.registry.get? t.key = some e) {types : WellKnownTypes} {result : SynthesizedClass}
    (h : c.model.synthesizeType types e = .ok result) :
    result.hint config = t.identity ++ config.suffix := by
  have named := named_of_build built t ht
  have hpath : ∀ name ∈ t.path, name ≠ "" := by
    intro name hname
    obtain ⟨space, hspace, hname⟩ := List.mem_flatMap.1 hname
    obtain ⟨i, hi, rfl⟩ := List.mem_map.1 hname
    exact (named.spaces space hspace i hi).ne_empty
  have htypes : ∀ d ∈ t.containers ++ [t.decl], d.name.name ≠ "" := by
    intro d hd
    rcases List.mem_append.1 hd with hd | hd
    · exact (named.containers d hd).ne_empty
    · rw [List.mem_singleton.1 hd]
      exact named.decl.ne_empty
  rw [SynthesizedClass.hint, naming, segments_of_synthesizeType built faithful ht he h,
    DeclSite.identity, DeclSite.identityIn_eq_intercalate hpath htypes]

/-- The artifacts of different types have different names. -/
theorem key_eq_of_hint_eq (faithful : c.Faithful) {config : GeneratorConfig}
    (naming : config.naming = .qualified) {types : WellKnownTypes} {key other : TypeKey}
    {e e' : TypeEntry} (he : c.registry.get? key = some e) (he' : c.registry.get? other = some e')
    {result result' : SynthesizedClass} (h : c.model.synthesizeType types e = .ok result)
    (h' : c.model.synthesizeType types e' = .ok result')
    (hint : result.hint config = result'.hint config) : key = other := by
  obtain ⟨t, ht, rfl, -⟩ := (from_of_build built).declared key e he
  obtain ⟨t', ht', rfl, -⟩ := (from_of_build built).declared other e' he'
  rw [hint_of_synthesizeType built faithful naming ht he h,
    hint_of_synthesizeType built faithful naming ht' he' h'] at hint
  have hidentity : t.identity = t'.identity := by
    have htext := congrArg String.toList hint
    rw [String.toList_append, String.toList_append] at htext
    exact String.toList_inj.1 (List.append_cancel_right htext)
  rw [DeclSite.key, hidentity]
  rfl

end Compilation

end Graft
