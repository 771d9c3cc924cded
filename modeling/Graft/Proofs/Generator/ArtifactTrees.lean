/-
Module: Graft.Proofs.Generator.ArtifactTrees
Purpose: The trees that artifacts are read as.
Main exports: SynthesizedClass.IsTreeOf, SynthesizedClass.exists_trees,
  SynthesizedClass.IsTreeOf.exists_sites, SynthesizedClass.IsTreeOf.adds

The declarations in the tree of an artifact are nested in one another, as its headers say.  The outer ones
hold nothing else, and the innermost one holds the properties that are copied.
-/
import Graft.Proofs.Generator.ArtifactFiles
import Graft.Proofs.Generator.Correspondence
import Graft.Proofs.Program.Extension
import Graft.Proofs.Program.Outward

namespace Graft

open Graft.Parser (DeclaresPart HoldsPart)

namespace SynthesizedClass

variable {config : GeneratorConfig} {r : SynthesizedClass} {t : SourceTree}

/-- A declaration has what a header says. -/
abbrev Declares (h : TypeHeader) (d : TypeDecl) : Prop := DeclaresPart h.kind h.name h.typeParams d

/-- The tree is that of the artifact of a class, which is a source of the program. -/
structure IsTreeOf (config : GeneratorConfig) (r : SynthesizedClass) (t : SourceTree) : Prop where
  origin : t.origin = .source
  text : t.text = r.text config
  usings : ∀ d ∈ t.file.usings, d.isGlobal = false
  holds : ∃ d, HoldsPart r.space d t.file.members ∧
    Nest (List.Forall₂ (CopiedAs (r.text config)) r.properties) r.headers [.type d]

/-- The artifacts of classes are read without an error. -/
theorem exists_trees (targets : ∀ target ∈ config.usings, Parser.IsUsingTarget target)
    {classes : List SynthesizedClass} (h : ∀ r ∈ classes, r.Legible ∧ r.Sourced) : ∀ index, ∃ trees,
      Compilation.readFrom index (classes.map fun r => ⟨r.hint config, r.text config, .source⟩) = .ok trees ∧
        List.Forall₂ (IsTreeOf config) classes trees := by
  induction classes with
  | nil => exact fun _ => ⟨[], rfl, .nil⟩
  | cons r rest ih =>
      intro index
      obtain ⟨legible, sourced⟩ := h r List.mem_cons_self
      obtain ⟨file, hfile, husings, hholds⟩ := parse_text targets legible sourced ⟨index⟩
      obtain ⟨trees, htrees, hrest⟩ := ih (fun r hr => h r (List.mem_cons_of_mem _ hr)) (index + 1)
      have htree : SourceTree.parse ⟨index⟩ ⟨r.hint config, r.text config, .source⟩ =
          .ok ⟨⟨index⟩, r.hint config, r.text config, file, .source⟩ := by
        rw [SourceTree.parse, hfile]
        rfl
      refine ⟨⟨⟨index⟩, r.hint config, r.text config, file, .source⟩ :: trees, ?_,
        .cons ⟨rfl, rfl, husings, hholds⟩ hrest⟩
      rw [List.map_cons, Compilation.readFrom, htree]
      dsimp only
      rw [htrees]
      rfl

/-! ### Declarations -/

/-- The declarations of headers that are nested in one another: those around the
innermost one, and that one. -/
theorem Nest.exists_decls {M : List MemberDecl → Prop}
    (plain : ∀ members, M members → ∀ m ∈ members, ∃ p, m = .property p) {rest : List TypeHeader} :
    ∀ {h : TypeHeader} {members : List MemberDecl}, Nest M (h :: rest) members →
      ∃ before last, List.Forall₂ Declares (h :: rest) (before ++ [last]) ∧
        (∀ d ∈ before, ∃ inner, d.members = [.type inner]) ∧ M last.members ∧
        ∀ spaces outer, DeclSite.ofMembers spaces outer members =
          DeclSite.along spaces outer (before ++ [last]) := by
  induction rest with
  | nil =>
      rintro h _ ⟨d, rfl, hpart, hinside⟩
      refine ⟨[], d, .cons hpart .nil, nofun, hinside, fun spaces outer => ?_⟩
      rw [DeclSite.ofMembers, DeclSite.ofMember, DeclSite.ofMembers, List.append_nil, DeclSite.ofType_eq,
        DeclSite.ofMembers_of_properties (plain _ hinside)]
      rfl
  | cons next rest ih =>
      rintro h _ ⟨d, rfl, hpart, hinside⟩
      obtain ⟨before, last, hparts, hbefore, hlast, hsites⟩ := ih hinside
      obtain ⟨inner, hinner, -⟩ := hinside
      refine ⟨d :: before, last, .cons hpart hparts, List.forall_mem_cons.2 ⟨⟨inner, hinner⟩, hbefore⟩,
        hlast, fun spaces outer => ?_⟩
      rw [DeclSite.ofMembers, DeclSite.ofMember, DeclSite.ofMembers, List.append_nil,
        DeclSite.ofType_eq, hsites]
      rfl

/-- Copied members are properties. -/
theorem forall₂_filterMap_property? {text : String} {properties : List SynthesizedProperty}
    {members : List MemberDecl} (h : List.Forall₂ (CopiedAs text) properties members) :
    List.Forall₂ (fun p q => CopiedAs text p (.property q)) properties
      (members.filterMap MemberDecl.property?) := by
  induction h with
  | nil => exact .nil
  | cons hcopied _ ih =>
      obtain ⟨q, rfl, -⟩ := id hcopied
      exact .cons hcopied ih

namespace IsTreeOf

variable (h : IsTreeOf config r t)
include h

/-- The declarations of the tree. -/
theorem exists_sites : ∃ spaces before last, t.sites = DeclSite.along spaces [] (before ++ [last]) ∧
    spaces.flatMap (·.path) = r.space ∧ List.Forall₂ Declares r.headers (before ++ [last]) ∧
    (∀ d ∈ before, ∃ inner, d.members = [.type inner]) ∧
    List.Forall₂ (CopiedAs (r.text config)) r.properties last.members := by
  obtain ⟨d, hholds, hnest⟩ := h.holds
  have hplain : ∀ members, List.Forall₂ (CopiedAs (r.text config)) r.properties members →
      ∀ m ∈ members, ∃ p, m = .property p := by
    intro members hmembers m hm
    obtain ⟨p, -, q, rfl, -⟩ := exists_of_mem_right hmembers hm
    exact ⟨q, rfl⟩
  obtain ⟨first, rest, hheaders⟩ := r.exists_headers_eq
  rw [hheaders] at hnest ⊢
  obtain ⟨before, last, hparts, hbefore, hlast, hsites⟩ := hnest.exists_decls hplain
  have hof : ∀ spaces, DeclSite.ofSpaceMembers spaces [.type d] =
      DeclSite.along spaces [] (before ++ [last]) := by
    intro spaces
    have hone := hsites spaces []
    rw [DeclSite.ofMembers, DeclSite.ofMember, DeclSite.ofMembers] at hone
    rw [DeclSite.ofSpaceMembers, DeclSite.ofSpaceMembers, hone]
  rcases hholds with ⟨hpath, hmembers⟩ | ⟨n, hmembers, hpath, hinside⟩
  · refine ⟨[], before, last, ?_, hpath.symm, hparts, hbefore, hlast⟩
    rw [SourceTree.sites, hmembers, hof]
  · refine ⟨[n], before, last, ?_, ?_, hparts, hbefore, hlast⟩
    · obtain ⟨name, fileScoped, usings, members, span⟩ := n
      obtain rfl : members = [.type d] := hinside
      rw [SourceTree.sites, hmembers, DeclSite.ofSpaceMembers, DeclSite.ofSpace, DeclSite.ofSpaceMembers,
        List.append_nil, List.nil_append, hof]
    · rw [List.flatMap_cons, List.flatMap_nil, List.append_nil, hpath]

/-- The namespace of the tree. -/
theorem path_of_mem_chains : ∀ chain ∈ t.chains, chain.flatMap (·.path) = r.space := by
  obtain ⟨d, ⟨hpath, hmembers⟩ | ⟨n, hmembers, hpath, hinside⟩, -⟩ := h.holds
  · intro chain hchain
    rw [SourceTree.chains, hmembers, NamespaceMember.chains, NamespaceMember.chains] at hchain
    exact absurd hchain List.not_mem_nil
  · intro chain hchain
    obtain ⟨name, fileScoped, usings, members, span⟩ := n
    obtain rfl : members = [.type d] := hinside
    rw [SourceTree.chains, hmembers, NamespaceMember.chains, NamespaceDecl.chains, NamespaceMember.chains,
      NamespaceMember.chains, NamespaceMember.chains, List.append_nil, List.nil_append,
      List.mem_singleton] at hchain
    rw [hchain, List.flatMap_cons, List.flatMap_nil, List.append_nil, hpath]

/-- The tree adds properties only. -/
theorem adds : t.Adds := by
  obtain ⟨spaces, before, last, hsites, -, -, hbefore, hlast⟩ := h.exists_sites
  refine ⟨h.usings, fun s hs m hm => ?_⟩
  have hdecl : s.decl ∈ before ++ [last] := by
    rw [hsites] at hs
    exact DeclSite.decl_mem_of_mem_along hs
  rcases List.mem_append.1 hdecl with hdecl | hdecl
  · obtain ⟨inner, hinner⟩ := hbefore _ hdecl
    rw [hinner, List.mem_singleton] at hm
    exact .inr ⟨inner, hm⟩
  · rw [List.mem_singleton.1 hdecl] at hm
    obtain ⟨p, -, q, rfl, -, hpartial, -⟩ := exists_of_mem_right hlast hm
    exact .inl ⟨q, rfl, hpartial⟩

/-- The innermost declaration has the properties of the class, and the other ones have none. -/
theorem exists_properties {key : TypeKey} (hlast : ∀ s ∈ t.sites.getLast?, s.key = key) :
    ∃ list : List PropertyDecl,
    List.Forall₂ (fun p q => CopiedAs (r.text config) p (.property q)) r.properties list ∧
      ∀ other, t.propertiesIn other = if key = other then list else [] := by
  obtain ⟨spaces, before, last, hsites, -, -, hbefore, hcopied⟩ := h.exists_sites
  rw [DeclSite.along_append_singleton, List.nil_append] at hsites
  have hkey : DeclSite.key ⟨spaces, before, last⟩ = key :=
    hlast _ (by rw [hsites, List.getLast?_concat]; rfl)
  have houter : ∀ s ∈ DeclSite.along spaces [] before,
      s.decl.members.filterMap MemberDecl.property? = [] := by
    intro s hs
    obtain ⟨inner, hinner⟩ := hbefore _ (DeclSite.decl_mem_of_mem_along hs)
    rw [hinner]
    rfl
  refine ⟨last.members.filterMap MemberDecl.property?, forall₂_filterMap_property? hcopied, fun other => ?_⟩
  rw [SourceTree.propertiesIn, hsites, List.filter_append, List.flatMap_append,
    List.flatMap_eq_nil_iff.2 fun s hs => houter s (List.mem_of_mem_filter hs), List.nil_append]
  by_cases hother : key = other
  · rw [if_pos hother, List.filter_cons_of_pos (by simp [hkey, hother]), List.filter_nil, List.flatMap_cons,
      List.flatMap_nil, List.append_nil]
  · rw [if_neg hother, List.filter_cons_of_neg (by simp [hkey, hother]), List.filter_nil, List.flatMap_nil]

end IsTreeOf

end SynthesizedClass

end Graft
