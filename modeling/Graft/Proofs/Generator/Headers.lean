/-
Module: Graft.Proofs.Generator.Headers
Purpose: The headers of a class and the types that go on with them.
Main exports: Compilation.Heads, Compilation.forall₂_headers, Compilation.continues_of_heads

The headers of a class are those of the types around its declaration, one by one, if a key stands for one
type.  Partial declarations with these headers then go on with these types, wherever they are added.
-/
import Graft.Proofs.Generator.ArtifactFiles
import Graft.Proofs.Generator.Hints
import Graft.Proofs.Program.Attributes
import Graft.Proofs.Program.Extension
import Graft.Proofs.Program.Outward

namespace Graft

open Graft.Parser (DeclaresPart)

/-- Declarations of one type that are alike declare the same entry, but for their own parts. -/
theorem DeclSite.bare_newEntry {s u : DeclSite} (same : s.SameType u) (kind : s.decl.kind = u.decl.kind)
    (params : s.decl.paramNames = u.decl.paramNames) (origin : Origin) :
    (s.newEntry origin).bare = (u.newEntry origin).bare := by
  have hnames : s.containers.map (·.name.name) = u.containers.map (·.name.name) := by
    have hmap := congrArg (List.map Prod.fst) same.containers
    rwa [List.map_map, List.map_map] at hmap
  have hqualified : s.qualified = u.qualified := by
    rw [DeclSite.qualified, DeclSite.qualified, same.name, same.path, hnames]
  simp only [TypeEntry.bare, DeclSite.newEntry, hqualified, same.path, same.key, kind, params,
    same.container?]

/-- The header of a class is that of its type, which is public if nothing else is said. -/
theorem SourceModel.header_of_synthesizeType {m : SourceModel} {types : WellKnownTypes} {e : TypeEntry}
    {result : SynthesizedClass} (h : m.synthesizeType types e = .ok result) :
    result.header =
      { e.partialHeader with accessibility? := e.partialHeader.accessibility? <|> some "public" } := by
  obtain ⟨properties, -, rfl⟩ := exists_of_synthesizeType h
  rfl

namespace Compilation

/-- The header is one of the type that is registered where a declaration stands. -/
structure Heads (c : Compilation) (s : DeclSite) (h : TypeHeader) : Prop where
  entry : ∃ e, c.registry.get? s.key = some e ∧ h.kind = e.kind ∧ h.name = e.name ∧
    h.typeParams = e.typeParams
  access : h.accessibility? ∈ Modifiers.accessWords.map Prod.fst

theorem heads_partialHeader {c : Compilation} {s : DeclSite} {e : TypeEntry}
    (he : c.registry.get? s.key = some e) :
    c.Heads s e.partialHeader :=
  ⟨⟨e, he, rfl, rfl, rfl⟩, Modifiers.accessibility?_mem _⟩

variable {documents : List Document} {c : Compilation} (built : build documents = .ok c)
  (faithful : c.Faithful)
include built faithful

/-- The headers of the types around a type are those of the declarations around it. -/
theorem forall₂_containerHeaders (containers : List TypeDecl) :
    ∀ {t : DeclSite}, t ∈ c.sites → t.containers = containers → ∀ {e : TypeEntry},
      c.registry.get? t.key = some e →
      List.Forall₂ c.Heads (DeclSite.along t.spaces [] containers) (c.model.containerHeaders e) := by
  induction containers using List.reverseRecOn with
  | nil =>
      intro t ht htop e he
      obtain ⟨s, declared, same⟩ := sameType_of_get? built faithful ht he
      rw [SourceModel.containerHeaders_of_top
        (declared.container?.trans (same.container?.trans (DeclSite.container?_of_top htop)))]
      exact .nil
  | append_singleton outer d ih =>
      intro t ht hnested e he
      obtain ⟨s, declared, same⟩ := sameType_of_get? built faithful ht he
      have hparent := mem_sites_parent ht hnested
      have hsome := declared.container?.trans (same.container?.trans (DeclSite.container?_of_nested hnested))
      obtain ⟨holder, hholder⟩ :=
        Option.isSome_iff_exists.1 ((from_of_build built).container t.key e _ he hsome)
      rw [(contained_of_build built).containerHeaders_within hsome hholder, DeclSite.along_append_singleton,
        List.nil_append]
      exact List.rel_append (ih hparent rfl hholder) (.cons (heads_partialHeader hholder) .nil)

/-- The headers of a class are those of a declaration of it and of the declarations around this one. -/
theorem forall₂_headers {t : DeclSite} (ht : t ∈ c.sites) {e : TypeEntry}
    (he : c.registry.get? t.key = some e) {types : WellKnownTypes} {result : SynthesizedClass}
    (h : c.model.synthesizeType types e = .ok result) :
    List.Forall₂ c.Heads t.outward result.headers := by
  obtain ⟨s, declared, same⟩ := sameType_of_get? built faithful ht he
  obtain ⟨-, hcontainers, -⟩ := SourceModel.fields_of_synthesizeType h
  have houter := forall₂_containerHeaders built faithful t.containers ht rfl he
  have hown : c.Heads t result.header := by
    rw [SourceModel.header_of_synthesizeType h]
    refine ⟨⟨e, he, rfl, rfl, rfl⟩, ?_⟩
    have haccess := Modifiers.accessibility?_mem e.modifiers
    dsimp only [TypeEntry.partialHeader]
    cases hnone : e.modifiers.accessibility? with
    | none => decide
    | some access =>
        rw [hnone] at haccess
        exact haccess
  rw [DeclSite.outward, DeclSite.along_append_singleton, List.nil_append, SynthesizedClass.headers,
    hcontainers]
  exact List.rel_append houter (.cons hown .nil)

/-- A header has the name and the type parameters that the declaration has. -/
theorem names_of_heads {s : DeclSite} (hs : s ∈ c.sites) {h : TypeHeader} (heads : c.Heads s h) :
    s.decl.name.name = h.name ∧ s.decl.arity = h.typeParams.length := by
  obtain ⟨e, he, -, hname, hparams⟩ := heads.entry
  obtain ⟨first, declared, same⟩ := sameType_of_get? built faithful hs he
  refine ⟨?_, ?_⟩
  · rw [hname, ← same.name]
    exact (congrArg QualifiedName.name declared.qualified).symm
  · rw [hparams, declared.typeParams, ← same.arity]
    exact (List.length_map _).symm

/-- A partial declaration with the header of a registered type goes on with it. -/
theorem continues_of_heads {tree : SourceTree} (htree : tree ∈ c.trees) (source : tree.origin = .source)
    {s u : DeclSite} (hs : s ∈ tree.sites) (part : s.decl.modifiers.isPartial) {h : TypeHeader}
    (heads : c.Heads s h) (same : s.SameType u) (declares : DeclaresPart h.kind h.name h.typeParams u.decl) :
    (Registration.ofTrees c.trees).Continues .source u := by
  obtain ⟨old, hold, horigin, -, hpartial⟩ := (holds_of_build built tree htree s hs).entry
  obtain ⟨e, he, hkind, -, hparams⟩ := heads.entry
  obtain ⟨e', he', hbare⟩ := (alike_of_build built).entry hold
  obtain rfl := Option.some.inj (he.symm.trans he')
  -- the entry is that of the declaration that came first, which declares the same type as this one
  obtain ⟨first, hfirst, hkey, declared⟩ := (Registration.from_ofTrees c.trees).declared s.key old hold
  obtain ⟨origin, hentry⟩ := declared
  obtain rfl : origin = .source := ((congrArg TypeEntry.origin hentry).symm.trans horigin).trans source
  have hsame : first.SameType s := faithful first hfirst s (List.mem_flatMap.2 ⟨tree, htree, hs⟩) hkey
  have hsame' : first.SameType u := ⟨hsame.path.trans same.path, hsame.chain.trans same.chain⟩
  have hkinds : first.decl.kind = u.decl.kind := by
    rw [declares.kind, hkind]
    exact (congrArg TypeEntry.kind (hbare.trans hentry)).symm
  have hnames : first.decl.paramNames = u.decl.paramNames := by
    rw [declares.params, hparams]
    exact (congrArg TypeEntry.typeParams (hbare.trans hentry)).symm
  refine ⟨⟨old, same.key ▸ hold, ?_, hpartial part⟩, declares.part⟩
  rw [hentry, DeclSite.bare_newEntry hsame' hkinds hnames]

end Compilation

end Graft
