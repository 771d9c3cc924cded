/-
Module: Graft.Proofs.Generator.MergedArtifacts
Purpose: The artifacts of a program are further sources of it.
Main exports: SourceTree.written_of_getter, Compilation.sourced_of_makes, Compilation.forall₂_sites,
  Compilation.continues, Compilation.artifacts_merge_back

The class that is made for a marked type is made of sources, and so its artifact can be read.  Its
declarations are of the type and of those around it, for the headers are theirs.  When the artifacts are
added to the program, the marked types get their properties, and nothing else is changed.
-/
import Graft.Proofs.Generator.ArtifactTrees
import Graft.Proofs.Generator.Headers
import Graft.Proofs.Generator.Usages
import Graft.Proofs.Program.Reached

namespace Graft

open SynthesizedClass (CopiedAs Declares IsTreeOf)

/-! ### Getters -/

/-- The getter of a property of a source is written there. -/
theorem SourceTree.written_of_getter {id : SourceId} {d : Document} {t : SourceTree} (h : parse id d = .ok t)
    {s : DeclSite} (hs : s ∈ t.sites) {p : PropertyDecl} (hp : .property p ∈ s.decl.members)
    {getter : Getter} (hgetter : t.getter? p = some getter) : getter.Written := by
  obtain ⟨hfile, hdecls⟩ := file_of_parse h
  obtain ⟨span, hspan, hslice⟩ := exists_of_getter hgetter
  obtain ⟨i, j, place, whole, written⟩ :=
    SourceFile.repeatable_of_parse hfile s.decl (hdecls s hs) p hp getter.form span hspan
  obtain ⟨before, copied, covers⟩ := place.covers
  have hcopied : String.ofList copied = getter.text := Option.some.inj (covers.slice?.symm.trans hslice)
  obtain ⟨before', excerpt⟩ := whole.exists_excerpt (TokenStream.errors_of_parse hfile) place covers
  refine ⟨t.text, _, before', ?_, written⟩
  rwa [← hcopied, String.toList_ofList]

namespace Compilation

variable {documents : List Document} {c : Compilation} {config : GeneratorConfig} {types : WellKnownTypes}
  {key : TypeKey} {result : SynthesizedClass}

section

variable (built : build documents = .ok c)
include built

/-- The getter that is copied for a usage is written in one of the sources. -/
theorem written_of_copies {u : Usage} {p : SynthesizedProperty} (h : c.Copies types.repository u p) :
    p.getter.Written := by
  obtain ⟨e, property, he, hmembers, -, hgetter⟩ := h.copied
  rw [(build_eq_ok built).2.2.1] at he
  have hmem : .property property ∈ e.members :=
    List.mem_of_mem_filter (hmembers ▸ List.mem_singleton_self _ : _ ∈ e.membersNamed p.name)
  obtain ⟨part, hpart, hsome⟩ := List.exists_of_findSome?_eq_some hgetter
  obtain ⟨t, ht, s, hs, q, hq, rfl⟩ :=
    Completion.exists_declared_of_part (DeclPlace.nodup_ids_of_read (build_eq_ok built).1) he hmem hpart
  obtain ⟨id, d, hparse⟩ := parse_of_readFrom (build_eq_ok built).1 t ht
  exact SourceTree.written_of_getter hparse hs hq hsome

/-- A marked type is declared as a class in a tree of the program itself. -/
theorem exists_site_of_isMarkedType {name : String} (marked : c.model.IsMarkedType name key) :
    ∃ t ∈ c.trees, t.origin = .source ∧ ∃ s ∈ t.sites, s.key = key ∧ s.decl.kind = .classKind := by
  obtain ⟨marker, d, -, ⟨⟨f, hf, hd⟩, hkind, -⟩, hkey⟩ := marked
  obtain ⟨t, ht, rfl⟩ := List.mem_map.1 hf
  obtain ⟨ht, hsource⟩ := mem_sourceTrees.1 ht
  obtain ⟨s, hs, rfl, hsame⟩ := key_of_declared built ht hd hkey
  exact ⟨t, ht, of_decide_eq_true hsource, s, hs, hsame, hkind⟩

/-- A type is of the kind of each of its declarations. -/
theorem kind_of_get? {t : SourceTree} (ht : t ∈ c.trees) {s : DeclSite} (hs : s ∈ t.sites) {e : TypeEntry}
    (he : c.registry.get? s.key = some e) : e.kind = s.decl.kind := by
  obtain ⟨old, hold, -, hkind, -⟩ := (holds_of_build built t ht s hs).entry
  obtain ⟨e', he', hbare⟩ := (alike_of_build built).entry hold
  obtain rfl := Option.some.inj (he.symm.trans he')
  exact (congrArg TypeEntry.kind hbare).trans hkind

/-- An enumeration holds nothing. -/
theorem kind_ne_enumKind {t : SourceTree} (ht : t ∈ c.trees) {s : DeclSite} (hs : s ∈ t.sites)
    (hmembers : s.decl.members ≠ []) : s.decl.kind ≠ .enumKind := by
  intro hkind
  obtain ⟨id, d, hparse⟩ := parse_of_readFrom (build_eq_ok built).1 t ht
  obtain ⟨hfile, hdecls⟩ := SourceTree.file_of_parse hparse
  exact hmembers (SourceFile.members_of_enumKind hfile (hdecls s hs) hkind)

/-- The class that is made for a marked type is made of sources. -/
theorem sourced_of_makes (faithful : c.Faithful) {name : String} (marked : c.model.IsMarkedType name key)
    (makes : c.Makes types key result) : result.Sourced := by
  obtain ⟨e, he, hresult⟩ := makes
  obtain ⟨t, ht, -, s, hs, rfl, hclass⟩ := exists_site_of_isMarkedType built marked
  refine ⟨fun h hh => ?_, fun p hp => ?_⟩
  · have hheaders := forall₂_headers built faithful (List.mem_flatMap.2 ⟨t, ht, hs⟩) he hresult
    obtain ⟨u, hu, heads⟩ := exists_of_mem_right hheaders hh
    obtain ⟨hu, hholds⟩ := SourceTree.mem_sites_of_mem_outward s.containers hs rfl u hu
    obtain ⟨e', he', hkind, -⟩ := heads.entry
    refine ⟨?_, heads.access⟩
    rw [hkind, kind_of_get? built ht hu he']
    rcases hholds with rfl | hmembers
    · rw [hclass]
      decide
    · exact kind_ne_enumKind built ht hu hmembers
  · obtain ⟨u, -, hcopies⟩ := exists_of_mem_right (forall₂_copies built he hresult) hp
    exact written_of_copies built hcopies

/-! ### Trees of artifacts -/

section

variable (faithful : c.Faithful) {t : SourceTree} {s : DeclSite} {e : TypeEntry}
  (he : c.registry.get? s.key = some e)
  (hresult : c.model.synthesizeType types e = .ok result) (h : IsTreeOf config result t)
include faithful he hresult h

/-- The declarations in the tree of an artifact are of the type of a declaration and of those around it, with
the headers of these. -/
theorem forall₂_sites (hs : s ∈ c.sites) (hsites : ∀ u ∈ s.outward, u ∈ c.sites) :
    List.Forall₂ (fun u v => u.SameType v ∧ ∃ x, c.Heads u x ∧ Declares x v.decl) s.outward t.sites := by
  obtain ⟨spaces, before, last, htree, hpath, hparts, -⟩ := h.exists_sites
  have hheads := forall₂_headers built faithful hs he hresult
  have hdeclares : List.Forall₂ (fun x (v : DeclSite) => Declares x v.decl) result.headers t.sites := by
    rw [htree, ← List.forall₂_map_right_iff (f := DeclSite.decl), DeclSite.map_decl_along]
    exact hparts
  have hboth := forall₂_comp hheads hdeclares
  have hnames : List.Forall₂ (fun u v : DeclSite => DeclSite.SameNames u.decl v.decl) s.outward t.sites := by
    refine ((List.forall₂_and_left _ _).2 ⟨hsites, hboth⟩).imp fun u v ⟨hu, x, heads, declares⟩ => ?_
    obtain ⟨hname, harity⟩ := names_of_heads built faithful hu heads
    refine ⟨hname.trans declares.name.symm, harity.trans ?_⟩
    rw [← declares.params]
    exact List.length_map _
  have hspace : s.spaces.flatMap (·.path) = spaces.flatMap (·.path) := by
    obtain ⟨first, declared, same⟩ := sameType_of_get? built faithful hs he
    rw [hpath, (SourceModel.fields_of_synthesizeType hresult).1, declared.space, same.path]
    rfl
  have hdecls : List.Forall₂ DeclSite.SameNames (s.outward.map (·.decl)) (t.sites.map (·.decl)) :=
    List.forall₂_map_left_iff.2 (List.forall₂_map_right_iff.2 hnames)
  rw [htree, DeclSite.outward, DeclSite.map_decl_along, DeclSite.map_decl_along] at hdecls
  have hsame := DeclSite.forall₂_along hspace (show List.map _ [] = List.map _ [] from rfl) hdecls
  rw [← htree] at hsame
  exact hsame.mp (fun _ _ same declares => ⟨same, declares⟩) hboth

/-- The innermost declaration in the tree of an artifact is of the type itself. -/
theorem key_of_getLast? (hs : s ∈ c.sites) (hsites : ∀ u ∈ s.outward, u ∈ c.sites) :
    ∀ v ∈ t.sites.getLast?, v.key = s.key := by
  intro v hv
  have hforall := List.forall₂_reverse_iff.2 (forall₂_sites built faithful he hresult h hs hsites)
  rw [DeclSite.outward, DeclSite.along_append_singleton, List.reverse_append, List.reverse_singleton,
    List.singleton_append] at hforall
  obtain ⟨v', _, hsame, -, hreverse⟩ := List.forall₂_cons_left_iff.1 hforall
  rw [← List.head?_reverse, hreverse] at hv
  obtain rfl := Option.some.inj hv
  exact hsame.1.key.symm

/-- The tree of an artifact goes on with the types around a declaration in a source, if
these are declared in parts. -/
theorem continues {tree : SourceTree} (htree : tree ∈ c.trees) (source : tree.origin = .source)
    (hs : s ∈ tree.sites) (parts : ∀ d ∈ s.containers ++ [s.decl], d.modifiers.isPartial) :
    t.Continues (.ofTrees c.trees) := by
  have houtward := SourceTree.mem_sites_of_mem_outward s.containers hs rfl
  have hmem : ∀ u ∈ tree.sites, u ∈ c.sites := fun u hu => List.mem_flatMap.2 ⟨tree, htree, hu⟩
  refine ⟨fun v hv => ?_, fun chain hchain => ?_⟩
  · obtain ⟨u, hu, same, x, heads, declares⟩ := exists_of_mem_right
      (forall₂_sites built faithful he hresult h (hmem s hs) fun u hu => hmem u (houtward u hu).1) hv
    rw [h.origin]
    exact continues_of_heads built faithful htree source (houtward u hu).1
      (parts _ (DeclSite.decl_mem_of_mem_along hu)) heads same declares
  · obtain ⟨first, declared, same⟩ := sameType_of_get? built faithful (hmem s hs) he
    rw [h.path_of_mem_chains chain hchain, (SourceModel.fields_of_synthesizeType hresult).1, declared.space,
      same.path]
    obtain ⟨old, hold, -⟩ := (holds_of_build built tree htree s hs).entry
    have hread := (build_eq_ok built).1
    obtain ⟨-, -, rooted⟩ :=
      (Registration.reached_ofTrees (parse_of_readFrom hread) (readFrom_eq_ok hread).2).spec
    obtain ⟨u, hu, hkey, -, surrounds⟩ := rooted s.key old hold
    rw [← (faithful u hu s (hmem s hs) hkey).path]
    exact surrounds.housed

end

end

/-! ### Merging -/

/-- What is put together of the elements of a list, if but one of them has anything for each key. -/
theorem flatMap_of_nodup {κ α β : Type} {f : κ → α → List β} {keys : List κ} {list : List α}
    {R : κ → α → Prop} (related : List.Forall₂ R keys list)
    (alone : ∀ k a, R k a → ∀ other, k ≠ other → f other a = []) (nodup : keys.Nodup) (key : κ) :
    (key ∉ keys ∧ list.flatMap (f key) = []) ∨ ∃ a, R key a ∧ list.flatMap (f key) = f key a := by
  induction related with
  | nil => exact .inl ⟨List.not_mem_nil, rfl⟩
  | @cons k a keys list hka hrest ih =>
      obtain ⟨hnot, nodup⟩ := List.nodup_cons.1 nodup
      rw [List.flatMap_cons]
      by_cases hkey : k = key
      · subst hkey
        refine .inr ⟨a, hka, ?_⟩
        have hothers : list.flatMap (f k) = [] := List.flatMap_eq_nil_iff.2 fun b hb => by
          obtain ⟨k', hk', hb⟩ := exists_of_mem_right hrest hb
          exact alone k' b hb k fun heq => hnot (heq ▸ hk')
        rw [hothers, List.append_nil]
      · rw [alone k a hka key hkey, List.nil_append]
        exact (ih nodup).imp_left fun ⟨hmem, heq⟩ =>
          ⟨fun h => (List.mem_cons.1 h).elim (hkey ·.symm) hmem, heq⟩

/-- Every marked type is declared in parts, and so are the types around it. -/
def InParts (c : Compilation) (marker : String) : Prop :=
  ∀ s ∈ c.sites, c.model.IsMarkedType marker s.key → ∀ d ∈ s.containers ++ [s.decl], d.modifiers.isPartial

/-- The classes that are made for the marked types can be read. -/
def Spellable (c : Compilation) (marker : String) (types : WellKnownTypes) : Prop :=
  ∀ key result, c.model.IsMarkedType marker key → c.Makes types key result → result.Legible

/-- A member is the property that is asked for by a usage: it has the name of the property, and a getter with
the form and the text of its first one. -/
def IsMergedFor (c : Compilation) (repository : TypeKey) (u : Usage) (m : MemberEntry) : Prop :=
  ∃ p entry, c.Copies repository u p ∧ m = .property entry ∧ entry.name = p.name ∧
    ∃ getter, entry.firstGetter? = some getter ∧ getter.form = p.getter.form ∧ getter.text = p.getter.text

/-- The member of a tree that is copied for a usage. -/
theorem isMergedFor_of_copiedAs {repository : TypeKey} {t : SourceTree} (h : IsTreeOf config result t)
    {u : Usage} {p : SynthesizedProperty} {q : PropertyDecl} {m : MemberEntry}
    (copies : c.Copies repository u p) (copied : CopiedAs (result.text config) p (.property q))
    (added : Extension.IsProperty (t, q) m) :
    c.IsMergedFor repository u m := by
  obtain ⟨_, heq, hname, -, span, hgetter, htext⟩ := copied
  obtain rfl := MemberDecl.property.inj heq
  obtain ⟨entry, rfl, hentry, hparts⟩ := added
  have hfirst : entry.firstGetter? = some ⟨p.getter.form, p.getter.text, span⟩ := by
    rw [PropertyEntry.firstGetter?, hparts, List.findSome?_cons, SourceTree.part, SourceTree.getter?,
      if_pos (show t.isSource = true from decide_eq_true h.origin), hgetter, h.text]
    simp only [Option.bind_eq_bind, Option.bind_some, htext]
    rfl
  exact ⟨p, entry, copies, rfl, hentry.trans hname, _, hfirst, rfl, rfl⟩

/-- The tree is that of the artifact that is made for a marked type. -/
structure IsTreeFor (c : Compilation) (config : GeneratorConfig) (types : WellKnownTypes) (key : TypeKey)
    (t : SourceTree) : Prop where
  marked : c.model.IsMarkedType config.marker key
  made : ∃ result, c.Makes types key result ∧ IsTreeOf config result t

section

variable (built : build documents = .ok c) (faithful : c.Faithful)
include built faithful

/-- The artifacts of a pass that completes are read without an error, one tree for each marked type. -/
theorem trees_of_completed (targets : ∀ target ∈ config.usings, Parser.IsUsingTarget target)
    (found : c.model.wellKnown config = .ok types) (spellable : c.Spellable config.marker types)
    {cancelled : Cancellation} {count : Nat} {artifacts : List Artifact}
    (completed : (Pass.run config c.model cancelled).outcome = .ok ⟨.completed count, artifacts⟩)
    (index : Nat) :
    ∃ keys trees, keys.Nodup ∧ (∀ key, key ∈ keys ↔ c.model.IsMarkedType config.marker key) ∧
      readFrom index (artifacts.map fun a => ⟨a.hint, a.text, .source⟩) = .ok trees ∧
      List.Forall₂ (c.IsTreeFor config types) keys trees := by
  obtain ⟨_, keys, classes, hfound, nodup, hmarked, -, hmakes, -, rfl⟩ := classes_of_completed completed
  obtain rfl := Except.ok.inj (found.symm.trans hfound)
  have hclasses : ∀ r ∈ classes, r.Legible ∧ r.Sourced := by
    intro r hr
    obtain ⟨key, hkey, makes⟩ := exists_of_mem_right hmakes hr
    have marked := (hmarked key).1 hkey
    exact ⟨spellable key r marked makes, sourced_of_makes built faithful marked makes⟩
  obtain ⟨trees, hread, htrees⟩ := SynthesizedClass.exists_trees targets hclasses index
  refine ⟨keys, trees, nodup, hmarked, by rwa [List.map_map], ?_⟩
  have hmade := (List.forall₂_and_left _ _).2 ⟨fun key hkey => (hmarked key).1 hkey,
    forall₂_comp hmakes htrees⟩
  exact hmade.imp fun key t h => ⟨h.1, h.2⟩

variable (parts : c.InParts config.marker) {t : SourceTree} (h : c.IsTreeFor config types key t)
include parts h

/-- The tree goes on with the program, and has properties in its type only, which
are copied for its usages. -/
theorem IsTreeFor.extends : t.Continues (.ofTrees c.trees) ∧ t.Adds ∧
    (∀ other, key ≠ other → t.propertiesIn other = []) ∧
    ∀ added, List.Forall₂ Extension.IsProperty ((t.propertiesIn key).map (t, ·)) added →
      List.Forall₂ (c.IsMergedFor types.repository) (c.usages types.marker key) added := by
  obtain ⟨marked, result, ⟨e, he, hresult⟩, htree⟩ := h
  obtain ⟨tree, hmem, source, s, hs, rfl, -⟩ := exists_site_of_isMarkedType built marked
  have hsites : ∀ u ∈ tree.sites, u ∈ c.sites := fun u hu => List.mem_flatMap.2 ⟨tree, hmem, hu⟩
  have hparts := parts s (hsites s hs) marked
  obtain ⟨list, hcopied, hlist⟩ := htree.exists_properties
    (key_of_getLast? built faithful he hresult htree (hsites s hs) fun u hu =>
      hsites u (SourceTree.mem_sites_of_mem_outward s.containers hs rfl u hu).1)
  refine ⟨continues built faithful he hresult htree hmem source hs hparts, htree.adds, fun other hne => ?_,
    fun added hadded => ?_⟩
  · rw [hlist other, if_neg hne]
  · rw [hlist s.key, if_pos rfl, List.forall₂_map_left_iff] at hadded
    refine (forall₂_comp (forall₂_copies built he hresult) (forall₂_comp hcopied hadded)).imp ?_
    rintro u m ⟨p, copies, q, hcopied, hproperty⟩
    exact isMergedFor_of_copiedAs htree copies hcopied hproperty

end

/-- The artifacts of a pass that completes can be added to the program as further sources, if the marked
types are declared in parts, a key stands for one type, and the artifacts repeat no reserved words and types
that can be read.  Each marked type then has the members that it had, and behind them a property for each of
its usages; the other types have the members that they had. -/
theorem artifacts_merge_back (built : build documents = .ok c) (faithful : c.Faithful)
    (targets : ∀ target ∈ config.usings, Parser.IsUsingTarget target)
    (found : c.model.wellKnown config = .ok types) (parts : c.InParts config.marker)
    (spellable : c.Spellable config.marker types) {cancelled : Cancellation} {count : Nat}
    {artifacts : List Artifact}
    (completed : (Pass.run config c.model cancelled).outcome = .ok ⟨.completed count, artifacts⟩) :
    ∃ c', build (documents ++ artifacts.map fun a => ⟨a.hint, a.text, .source⟩) = .ok c' ∧
      ∀ key e, c.registry.get? key = some e → ∃ e' added, c'.registry.get? key = some e' ∧
        e'.members = e.members ++ added ∧
        (c.model.IsMarkedType config.marker key →
          List.Forall₂ (c.IsMergedFor types.repository) (c.usages types.marker key) added) ∧
        (¬c.model.IsMarkedType config.marker key → added = []) := by
  obtain ⟨keys, trees, nodup, hmarked, hread, hmade⟩ :=
    trees_of_completed built faithful targets found spellable completed documents.length
  have htree : ∀ t ∈ trees, t.Continues (.ofTrees c.trees) ∧ t.Adds := by
    intro t ht
    obtain ⟨key, -, h⟩ := exists_of_mem_right hmade ht
    obtain ⟨hcontinues, hadds, -⟩ := h.extends built faithful parts
    exact ⟨hcontinues, hadds⟩
  obtain ⟨c', built', hmembers⟩ := build_append built hread (fun t ht => (htree t ht).1) fun t ht =>
    (htree t ht).2
  refine ⟨c', built', fun key e he => ?_⟩
  obtain ⟨e', added, he', hadded, hproperties⟩ := hmembers key e he
  refine ⟨e', added, he', hadded, ?_⟩
  have halone : ∀ k t, c.IsTreeFor config types k t → ∀ other, k ≠ other →
      (t.propertiesIn other).map (t, ·) = [] := by
    intro k t h other hne
    obtain ⟨-, -, hothers, -⟩ := h.extends built faithful parts
    rw [hothers other hne, List.map_nil]
  rcases flatMap_of_nodup (f := fun key t => (t.propertiesIn key).map (t, ·)) hmade halone nodup key with
    ⟨hnot, heq⟩ | ⟨t, h, heq⟩
  · rw [heq, List.forall₂_nil_left_iff] at hproperties
    exact ⟨fun hkey => absurd ((hmarked key).2 hkey) hnot, fun _ => hproperties⟩
  · obtain ⟨-, -, -, hmerged⟩ := h.extends built faithful parts
    rw [heq] at hproperties
    exact ⟨fun _ => hmerged added hproperties, fun hnot => absurd h.marked hnot⟩

/-! ### A sample program -/

/-- Settings for types in a namespace. -/
def spaceSettings : GeneratorConfig := ⟨"N.M", "N.R", .qualified, ".g.cs", ["System"], true⟩

/-- A class that is marked inside of a generic one. -/
def markedInside : List Document :=
  [⟨"a.cs", "namespace N;class M\x7b\x7dclass R\x7bint P=>1;\x7d" ++
      "partial class O<T>\x7b[M(\"P\")]partial class A\x7bint F;\x7d\x7d", .source⟩]

/-- What is asked of a declaration: its key, its place, and whether it and the ones around it are parts. -/
structure PlaceFacts where
  key : TypeKey
  path : List String
  chain : List (String × Nat)
  inParts : Bool
deriving DecidableEq

/-- What is asked of a program before artifacts come to it: its declarations, the types of the candidates,
the class that is made for a type but for what is around it, the type around it, and how
many artifacts there are. -/
structure MergeFacts where
  places : List PlaceFacts
  candidates : List (Option TypeKey)
  alone : SynthesizedClass
  /-- The header of the type around the class, and what is around that one. -/
  holder? : Option (TypeHeader × Option TypeKey)
  count : Nat
deriving DecidableEq

def placeFacts (s : DeclSite) : PlaceFacts :=
  ⟨s.key, s.path, s.chain, (s.containers ++ [s.decl]).all (·.modifiers.isPartial)⟩

def mergeFacts? (config : GeneratorConfig) (documents : List Document) (key : TypeKey) :
    Option MergeFacts := do
  let c ← (build documents).toOption
  let types ← (c.model.wellKnown config).toOption
  let e ← c.registry.get? key
  let result ← (c.model.synthesizeType types e).toOption
  let output ← (Pass.run config c.model fun _ => false).outcome.toOption
  match output.status with
  | .completed count =>
      return ⟨c.sites.map placeFacts, (c.model.candidates config.marker c.model.scan).map
        (c.declaredType? ·.decl), { result with containers := [] },
        (e.container?.bind c.registry.get?).map fun holder => (holder.partialHeader, holder.container?),
          count⟩
  | _ => none

theorem of_mergeFacts?_eq_some {documents : List Document} {places : List PlaceFacts}
    {candidates : List (Option TypeKey)} {alone : SynthesizedClass} {header : TypeHeader} {count : Nat}
    (h : mergeFacts? config documents key = some ⟨places, candidates, alone, some (header, none), count⟩) :
    ∃ c types e artifacts, build documents = .ok c ∧ c.model.wellKnown config = .ok types ∧
      c.registry.get? key = some e ∧ c.model.synthesizeType types e =
        .ok { alone with containers := [header] } ∧
      (Pass.run config c.model fun _ => false).outcome = .ok ⟨.completed count, artifacts⟩ ∧
      c.sites.map placeFacts = places ∧
      (c.model.candidates config.marker c.model.scan).map (c.declaredType? ·.decl) = candidates := by
  unfold mergeFacts? at h
  simp only [Option.bind_eq_bind, Option.bind_eq_some_iff] at h
  obtain ⟨c, hc, types, htypes, e, he, result, hresult, ⟨status, artifacts⟩, houtput, h⟩ := h
  have hresult := eq_ok_of_toOption hresult
  cases status with
  | completed count =>
      injection Option.some.inj h with hplaces hcandidates halone hholder hcount
      subst hplaces hcandidates halone hcount
      obtain ⟨holder, inside, hholder⟩ := Option.map_eq_some_iff.1 hholder
      obtain ⟨rfl, htop⟩ := Prod.mk.inj hholder
      -- nothing is around the type around the class, so that the walk outwards ends there
      have outermost : holder.container?.bind c.model.entry? = none := by rw [htop, Option.bind_none]
      have hcontainers : result.containers = [holder.partialHeader] :=
        (SourceModel.fields_of_synthesizeType hresult).2.1.trans
          (SourceModel.Around.within inside (.outermost outermost)).containerHeaders_eq
      exact ⟨c, types, e, artifacts, eq_ok_of_toOption hc, eq_ok_of_toOption htypes, he,
        hcontainers ▸ hresult, eq_ok_of_toOption houtput, rfl, rfl⟩
  | noCandidates | missingTypes _ => cases h

/-- The declarations of `markedInside`. -/
def insidePlaces : List PlaceFacts :=
  [⟨.ofName "N.M", ["N"], [("M", 0)], false⟩, ⟨.ofName "N.R", ["N"], [("R", 0)], false⟩,
    ⟨.ofName "N.O`1", ["N"], [("O", 1)], true⟩, ⟨.ofName "N.O`1.A", ["N"], [("O", 1), ("A", 0)], true⟩]

/-- The class that is made for the marked one. -/
def insideClass : SynthesizedClass :=
  ⟨.ofName "N.O`1.A", ⟨"A", ["N", "O"]⟩, ["N"], [⟨none, .classKind, "O", ["T"]⟩],
    ⟨some "public", .classKind, "A", []⟩, [⟨"P", "int", ⟨.arrow, "=>1", ⟨34, 1, 35, 3⟩⟩⟩]⟩

theorem legible_insideClass : insideClass.Legible := by
  have names : ∀ name ∈ ["N", "O", "T", "A", "P"], Text.IsName name := by
    have hall : ∀ name ∈ ["N", "O", "T", "A", "P"], (name.toList.head?.any Text.isIdentStart &&
        name.toList.tail.all Text.isIdentContinue) = true ∧ Keyword.kind? name = none := by decide
    exact fun name hname => ⟨Text.isWord_of_all (hall name hname).1, (hall name hname).2⟩
  refine ⟨?_, ?_, ?_⟩
  · exact List.forall_mem_singleton.2 (names "N" (by decide))
  · refine List.forall_mem_cons.2
      ⟨⟨names "O" (by decide), List.forall_mem_singleton.2 (names "T" (by decide))⟩, ?_⟩
    exact List.forall_mem_singleton.2 ⟨names "A" (by decide), List.forall_mem_nil _⟩
  · refine List.forall_mem_singleton.2 ⟨⟨.predefined "int" default, ?_, rfl⟩, by decide,
      ⟨none, [⟨⟨"P", default⟩, []⟩], default⟩, ?_, by decide, ?_⟩
    · exact TypeSyntax.every_iff.2
        ⟨⟨show "int" ∈ Keyword.predefinedTypes by decide, nofun⟩, List.forall_mem_nil _⟩
    · have hname := names "P" (by decide)
      exact TypeSyntax.every_iff.2
        ⟨⟨⟨by decide, nofun, List.forall_mem_singleton.2 hname⟩, nofun⟩, List.forall_mem_nil _⟩
    · rintro last hlast
      exact congrArg Segment.args (Option.some.inj hlast).symm

/-- The artifact of a class that is marked inside of another one is a source that adds the property to it. -/
theorem artifacts_merge_back_markedInside : ∃ c c' artifacts e e' m, build markedInside = .ok c ∧
    (Pass.run spaceSettings c.model fun _ => false).outcome = .ok ⟨.completed 1, artifacts⟩ ∧
    build (markedInside ++ artifacts.map fun a => ⟨a.hint, a.text, .source⟩) = .ok c' ∧
    c.registry.get? (.ofName "N.O`1.A") = some e ∧ c'.registry.get? (.ofName "N.O`1.A") = some e' ∧
    e'.members = e.members ++ [m] ∧ m.name = "P" := by
  obtain ⟨c, types, e, artifacts, built, found, he, hresult, completed, hplaces, hcandidates⟩ :=
    of_mergeFacts?_eq_some (show mergeFacts? spaceSettings markedInside (.ofName "N.O`1.A") =
      some ⟨insidePlaces, [some (.ofName "N.O`1.A")], { insideClass with containers := [] },
        some (⟨none, .classKind, "O", ["T"]⟩, none), 1⟩ by decide +kernel)
  -- the one candidate is of the one marked type
  have hmarked : ∀ key, c.model.IsMarkedType spaceSettings.marker key ↔ key = .ofName "N.O`1.A" := by
    obtain ⟨_, keys, _, -, -, hkeys, hdeclared, -⟩ := classes_of_completed completed
    have heq : keys.map some = [some (TypeKey.ofName "N.O`1.A")] := by
      rw [← hcandidates, ← List.forall₂_eq_eq_eq, List.forall₂_map_left_iff, List.forall₂_map_right_iff]
      exact (forall₂_flip hdeclared).imp fun _ _ h => h.symm
    obtain ⟨key, rfl, hkey⟩ := List.map_eq_singleton_iff.1 heq
    intro other
    rw [← hkeys, List.mem_singleton, Option.some.inj hkey]
  have hdistinct : ∀ x ∈ insidePlaces, ∀ y ∈ insidePlaces, x.key = y.key → x.path = y.path ∧
      x.chain = y.chain := by
    decide +kernel
  have hinside : ∀ x ∈ insidePlaces, x.key = .ofName "N.O`1.A" → x.inParts = true := by decide +kernel
  have hfacts : ∀ s ∈ c.sites, placeFacts s ∈ insidePlaces := fun s hs => hplaces ▸ List.mem_map_of_mem hs
  have faithful : c.Faithful := fun s hs t ht hkey =>
    have hsame := hdistinct (placeFacts s) (hfacts s hs) (placeFacts t) (hfacts t ht) hkey
    ⟨hsame.1, hsame.2⟩
  have parts : c.InParts spaceSettings.marker := fun s hs marked =>
    List.all_eq_true.1 (hinside (placeFacts s) (hfacts s hs) ((hmarked _).1 marked))
  have spellable : c.Spellable spaceSettings.marker types := fun key result marked makes => by
    obtain rfl := (hmarked key).1 marked
    rw [makes.unique ⟨e, he, hresult⟩]
    exact legible_insideClass
  have targets : ∀ target ∈ spaceSettings.usings, Parser.IsUsingTarget target := by decide +kernel
  obtain ⟨c', built', hmembers⟩ :=
    artifacts_merge_back built faithful targets found parts spellable completed
  obtain ⟨e', added, he', hadded, hmerged, -⟩ := hmembers _ e he
  have hmerged := forall₂_comp (forall₂_flip (forall₂_copies built he hresult)) (hmerged ((hmarked _).2 rfl))
  obtain ⟨m, _, ⟨u, hcopies, p, entry, hcopies', rfl, hname, -⟩, hrest, rfl⟩ :=
    List.forall₂_cons_left_iff.1 hmerged
  obtain rfl := List.forall₂_nil_left_iff.1 hrest
  exact ⟨c, c', artifacts, e, e', .property entry, built, completed, built', he, he', hadded,
    hname.trans (hcopies'.name_eq hcopies)⟩

end Compilation

end Graft
