/-
Module: Graft.Proofs.Generator.Usages
Purpose: The attributes that mark a class and the properties that it gets for them.
Main exports: Usage, Compilation.usages, Compilation.Copies, Compilation.usages_exact

A class gets one property for each attribute of the marker's class on any of its declarations.  Where the
attributes stand decides the order, and nothing between the text and the class changes it: not the table
of types, nor the constants that are evaluated, nor the search for an attribute by its place.
-/
import Graft.Proofs.Constant.Derivation
import Graft.Proofs.Generator.Correspondence
import Graft.Proofs.Program.Attributes

namespace Graft

/-! ### Copied properties -/

theorem AttributeEntry.propertyName_eq_ok {a : AttributeEntry} {name : String}
    (h : a.propertyName = .ok name) :
    ∃ first rest, a.arguments = first :: rest ∧ first.value = .ok (.string name) := by
  unfold propertyName at h
  split at h
  · cases h
  · rename_i first rest harguments
    split at h
    · rename_i hvalue
      cases h
      exact ⟨first, rest, harguments, hvalue⟩
    · cases h
    · cases h

namespace SourceModel

variable {m : SourceModel} {repository : TypeKey}

theorem repositoryProperty_eq_ok {name : String} {property : PropertyEntry}
    (h : m.repositoryProperty repository name = .ok property) :
    ∃ e, m.entry? repository = some e ∧ e.membersNamed name = [.property property] := by
  unfold repositoryProperty at h
  cases hentry : m.entry? repository with
  | none =>
      rw [hentry] at h
      cases h
  | some e =>
      rw [hentry] at h
      refine ⟨e, rfl, ?_⟩
      dsimp only [Option.map_some, Option.getD_some] at h
      split at h
      · cases h
      · rename_i hmembers
        cases h
        exact hmembers
      · cases h
      · cases h

/-- A property is copied under the name that the attribute gives, with the only getter there is. -/
theorem copyProperty_eq_ok {a : AttributeEntry} {p : SynthesizedProperty}
    (h : m.copyProperty repository a = .ok p) :
    a.propertyName = .ok p.name ∧ ∃ property, m.repositoryProperty repository p.name = .ok property ∧
      p.type = m.displayDefinition property.type ∧ property.firstGetter? = some p.getter := by
  unfold copyProperty at h
  cases hname : a.propertyName with
  | error e =>
      rw [hname] at h
      cases h
  | ok name =>
      rw [hname] at h
      cases hproperty : m.repositoryProperty repository name with
      | error e =>
          simp only [bind, Except.bind, hproperty] at h
          cases h
      | ok property =>
          simp only [bind, Except.bind, hproperty] at h
          cases hgetter : property.firstGetter? with
          | none =>
              rw [hgetter] at h
              cases h
          | some getter =>
              rw [hgetter] at h
              cases h
              exact ⟨rfl, property, hproperty, rfl, hgetter⟩

/-- A class that is made has a property for each marker attribute of its type. -/
theorem synthesizeType_eq_ok {types : WellKnownTypes} {e : TypeEntry} {result : SynthesizedClass}
    (h : m.synthesizeType types e = .ok result) :
    (e.attributes.filter (·.isOf types.marker)).mapM (m.copyProperty types.repository) =
      .ok result.properties := by
  obtain ⟨properties, hproperties, rfl⟩ := exists_of_synthesizeType h
  exact hproperties

end SourceModel

/-- If a function does not fail on a list, the results are those of the elements. -/
private theorem forall₂_of_mapM {α β ε : Type} {f : α → Except ε β} {list : List α} {results : List β}
    (h : list.mapM f = .ok results) : List.Forall₂ (fun a b => f a = .ok b) list results := by
  induction list generalizing results with
  | nil =>
      cases h
      exact .nil
  | cons a rest ih =>
      rw [List.mapM_cons] at h
      cases hfirst : f a with
      | error e =>
          rw [hfirst] at h
          cases h
      | ok b =>
          rw [hfirst] at h
          cases hrest : rest.mapM f with
          | error e =>
              simp only [bind, Except.bind, hrest] at h
              cases h
          | ok more =>
              simp only [bind, Except.bind, hrest] at h
              cases h
              exact .cons hfirst (ih hrest)

/-! ### Usages -/

/-- An attribute where it is written. -/
structure Usage where
  place : DeclPlace
  written : AttributeSyntax

namespace Compilation

/-- The attributes of the class `marker` on the declarations of a type: tree by tree, in each the
declarations in the order of its text, and on each the attributes in the order of its lists. -/
def usages (c : Compilation) (marker key : TypeKey) : List Usage :=
  (c.places.filter fun p => c.declaredType? p.site.decl.id = some key).flatMap fun p =>
    (p.site.decl.allAttributes.filter fun a =>
      Lookup.attribute? c.registry (c.scopeAt p) a.name = some marker).map (⟨p, ·⟩)

/-- A property is the one that an attribute asks for: the only member of the repository type under the
name that the first constructor argument has as its value, with the first getter of it. -/
structure Copies (c : Compilation) (repository : TypeKey) (u : Usage) (p : SynthesizedProperty) : Prop where
  named : ∃ first rest, u.written.constructorArguments = first :: rest ∧
    c.constantFields.Derives (c.scopeAt u.place) first.value (.string p.name)
  copied : ∃ e property, c.registry.get? repository = some e ∧ e.membersNamed p.name = [.property property] ∧
    p.type = c.registry.displayDefinition property.type ∧ property.firstGetter? = some p.getter

variable {documents : List Document} {c : Compilation} {types : WellKnownTypes} {marker key : TypeKey}

/-- An argument has the value that it derives. -/
theorem derives_of_propertyName {u : Usage} {name : String}
    (h : (c.attributeAt u.place u.written).propertyName = .ok name) :
    ∃ first rest, u.written.constructorArguments = first :: rest ∧
      c.constantFields.Derives (c.scopeAt u.place) first.value (.string name) := by
  obtain ⟨argument, arguments, harguments, hvalue⟩ := AttributeEntry.propertyName_eq_ok h
  rw [attributeAt, DeclBody.attributeEntry, List.map_eq_cons_iff] at harguments
  obtain ⟨first, rest, hfirst, rfl, -⟩ := harguments
  have agrees := ConstantFields.agrees_evaluateAll (ConstantFields.agrees_empty (p := c.constantFields))
  exact ⟨first, rest, hfirst, ((ConstantFields.computes_evaluate _ _ _ _ agrees).result _).1 hvalue⟩

/-- The name of the property that is asked for is the value of one expression. -/
theorem Copies.name_eq {repository : TypeKey} {u : Usage} {p q : SynthesizedProperty}
    (h : c.Copies repository u p) (h' : c.Copies repository u q) : p.name = q.name := by
  obtain ⟨first, rest, hfirst, value⟩ := h.named
  obtain ⟨other, rest', hother, value'⟩ := h'.named
  obtain ⟨rfl, -⟩ := List.cons.inj (hfirst.symm.trans hother)
  exact Constant.string.inj (value.unique value')

theorem copies_of_copyProperty {repository : TypeKey} {u : Usage} {p : SynthesizedProperty}
    (h : c.model.copyProperty repository (c.attributeAt u.place u.written) = .ok p) :
    c.Copies repository u p := by
  obtain ⟨hname, property, hproperty, htype, hgetter⟩ := SourceModel.copyProperty_eq_ok h
  obtain ⟨e, he, hmembers⟩ := SourceModel.repositoryProperty_eq_ok hproperty
  exact ⟨derives_of_propertyName hname, e, property, he, hmembers, htype, hgetter⟩

theorem mem_sourceTrees {t : SourceTree} : t ∈ c.sourceTrees ↔ t ∈ c.trees ∧ t.isSource := List.mem_filter

/-- An attribute of the class on a declaration of the type is a usage. -/
theorem mem_usages {p : DeclPlace} (hp : p ∈ c.places) (hkey : c.declaredType? p.site.decl.id = some key)
    {a : AttributeSyntax} (ha : a ∈ p.site.decl.allAttributes)
    (hclass : Lookup.attribute? c.registry (c.scopeAt p) a.name = some marker) :
    (⟨p, a⟩ : Usage) ∈ c.usages marker key :=
  List.mem_flatMap.2 ⟨p, List.mem_filter.2 ⟨hp, decide_eq_true hkey⟩,
    List.mem_map_of_mem (List.mem_filter.2 ⟨ha, decide_eq_true hclass⟩)⟩

variable (built : build documents = .ok c)
include built

/-- The marker attributes of a type are its usages. -/
theorem markers_eq_usages {e : TypeEntry} (he : c.registry.get? key = some e) :
    e.attributes.filter (·.isOf marker) =
      (c.usages marker key).map fun u => c.attributeAt u.place u.written := by
  have hplaces : c.places.filter (fun p => c.declaredType? p.site.decl.id = some key) =
      c.places.filter (·.site.key = key) := by
    refine List.filter_congr fun p hp => ?_
    rw [declaredType?_of_mem_places built hp]
    simp only [Option.some.injEq]
  rw [attributes_of_build built he, usages, hplaces, List.filter_flatMap, List.map_flatMap]
  refine List.flatMap_congr fun p _ => ?_
  rw [List.filter_map, List.map_map]
  rfl

/-- A class has the properties that the usages of its type ask for. -/
theorem forall₂_copies {e : TypeEntry} (he : c.registry.get? key = some e) {result : SynthesizedClass}
    (h : c.model.synthesizeType types e = .ok result) :
    List.Forall₂ (c.Copies types.repository) (c.usages types.marker key) result.properties := by
  have hcopied := forall₂_of_mapM (SourceModel.synthesizeType_eq_ok h)
  rw [markers_eq_usages built he, List.forall₂_map_left_iff] at hcopied
  exact hcopied.imp fun u p => copies_of_copyProperty

/-! ### Candidates -/

/-- A declaration is marked where it stands: in a tree of the program itself, as a class, by an attribute
that is looked up in its own scope. -/
theorem isMarked_iff_place {d : TypeDecl} : c.model.IsMarked marker d ↔
    ∃ p ∈ c.places, p.tree.isSource ∧ p.site.decl = d ∧ d.kind = .classKind ∧
      ∃ a ∈ d.allAttributes, Lookup.attribute? c.registry (c.scopeAt p) a.name = some marker := by
  constructor
  · rintro ⟨⟨f, hf, hd⟩, hkind, a, ha, hclass⟩
    obtain ⟨t, ht, rfl⟩ := List.mem_map.1 hf
    rw [← SourceTree.map_decl_sites] at hd
    obtain ⟨s, hs, rfl⟩ := List.mem_map.1 hd
    obtain ⟨ht, hsource⟩ := mem_sourceTrees.1 ht
    have hp : (⟨t, s⟩ : DeclPlace) ∈ c.places := mem_places.2 ⟨ht, hs⟩
    exact ⟨_, hp, hsource, rfl, hkind, a, ha, (attributeClass?_of_build built hp ha).symm.trans hclass⟩
  · rintro ⟨p, hp, hsource, rfl, hkind, a, ha, hclass⟩
    obtain ⟨ht, hs⟩ := mem_places.1 hp
    refine ⟨⟨p.tree.file, List.mem_map_of_mem (mem_sourceTrees.2 ⟨ht, hsource⟩), ?_⟩, hkind, a, ha,
      (attributeClass?_of_build built hp ha).trans hclass⟩
    rw [← SourceTree.map_decl_sites]
    exact List.mem_map_of_mem hs

/-- What a candidate that is not refused gets. -/
theorem copies_of_synthesize {x : Candidate} {d : TypeDecl} (marked : c.model.IsMarked types.marker d)
    (hid : d.id = x.decl) {result? : Option SynthesizedClass}
    (h : c.model.synthesize types x = .ok result?) :
    ∃ key result, c.declaredType? x.decl = some key ∧ result? = some result ∧
      List.Forall₂ (c.Copies types.repository) (c.usages types.marker key) result.properties ∧
      result.properties ≠ [] := by
  obtain ⟨key, e, hkey, he⟩ := get?_of_isMarked marked
  have hdeclared : c.model.declaredType? x.decl = some key := hid ▸ hkey
  have hentry : c.model.entry? key = some e := he
  simp only [SourceModel.synthesize, hdeclared, hentry] at h
  cases hresult : c.model.synthesizeType types e with
  | error cause =>
      rw [hresult] at h
      cases h
  | ok result =>
      rw [hresult] at h
      cases h
      have hcopied := forall₂_copies built he hresult
      refine ⟨key, result, hdeclared, rfl, hcopied, fun hnil => ?_⟩
      obtain ⟨p, hp, -, rfl, -, a, ha, hclass⟩ := (isMarked_iff_place built).1 marked
      have hmem := mem_usages hp hkey ha hclass
      rw [hnil, List.forall₂_nil_right_iff] at hcopied
      rw [hcopied] at hmem
      cases hmem

/-- No marker is lost, doubled or moved.  The candidates are the class declarations in the program's own
trees that an attribute marks in their own scope, each once.  A candidate that is not refused gets a
class, with one property for each usage on any declaration of its type, in the order of the usages. -/
theorem usages_exact {name : String} (hmarker : c.model.lookup? name = some types.marker) :
    (∀ t ∈ c.sourceTrees, ∀ s ∈ t.sites, s.decl.kind = .classKind →
      (s.decl.id ∈ (c.model.candidates name c.model.scan).map (·.decl) ↔
        ∃ a ∈ s.decl.allAttributes,
          Lookup.attribute? c.registry (c.scopeAt ⟨t, s⟩) a.name = some types.marker)) ∧
    ((c.model.candidates name c.model.scan).map (·.decl)).Nodup ∧
    ∀ x ∈ c.model.candidates name c.model.scan,
      (∃ t ∈ c.sourceTrees, ∃ s ∈ t.sites, s.decl.id = x.decl ∧ s.decl.kind = .classKind) ∧
      ∀ result?, c.model.synthesize types x = .ok result? →
        ∃ key result, c.declaredType? x.decl = some key ∧ result? = some result ∧
          List.Forall₂ (c.Copies types.repository) (c.usages types.marker key) result.properties ∧
          result.properties ≠ [] := by
  refine ⟨fun t ht s hs hkind => ?_, SourceModel.nodup_candidates name _, fun x hx => ?_⟩
  · obtain ⟨ht, hsource⟩ := mem_sourceTrees.1 ht
    have hplace : (⟨t, s⟩ : DeclPlace) ∈ c.places := mem_places.2 ⟨ht, hs⟩
    rw [SourceModel.mem_candidates_iff hmarker]
    constructor
    · rintro ⟨d, marked, hid⟩
      obtain ⟨p, hp, -, rfl, -, a, ha, hclass⟩ := (isMarked_iff_place built).1 marked
      obtain rfl := eq_of_mem_places built hp hplace hid
      exact ⟨a, ha, hclass⟩
    · exact fun ⟨a, ha, hclass⟩ =>
        ⟨s.decl, (isMarked_iff_place built).2 ⟨_, hplace, hsource, rfl, hkind, a, ha, hclass⟩, rfl⟩
  · obtain ⟨d, marked, hid⟩ := (SourceModel.mem_candidates_iff hmarker).1 (List.mem_map_of_mem hx)
    refine ⟨?_, fun result? h => copies_of_synthesize built marked hid h⟩
    obtain ⟨p, hp, hsource, rfl, hkind, -⟩ := (isMarked_iff_place built).1 marked
    obtain ⟨ht, hs⟩ := mem_places.1 hp
    exact ⟨p.tree, mem_sourceTrees.2 ⟨ht, hsource⟩, p.site, hs, hid, hkind⟩

omit built

/-- The names of the properties of the first class that a pass makes. -/
def firstNames? (config : GeneratorConfig) (documents : List Document) : Option (List String) := do
  let c ← (build documents).toOption
  let types ← (c.model.wellKnown config).toOption
  let x ← (c.model.candidates config.marker c.model.scan).head?
  let result ← (← (c.model.synthesize types x).toOption)
  return result.properties.map (·.name)

theorem of_firstNames?_eq_some {config : GeneratorConfig} {names : List String}
    (h : firstNames? config documents = some names) :
    ∃ c types x result, build documents = .ok c ∧ c.model.lookup? config.marker = some types.marker ∧
      x ∈ c.model.candidates config.marker c.model.scan ∧
      c.model.synthesize types x = .ok (some result) ∧ result.properties.map (·.name) = names := by
  unfold firstNames? at h
  simp only [Option.bind_eq_bind, Option.bind_eq_some_iff, Option.pure_def, Option.some.injEq] at h
  obtain ⟨c, hc, types, htypes, x, hx, result?, hresult, result, rfl, hnames⟩ := h
  refine ⟨c, types, x, result, eq_ok_of_toOption hc, ?_, List.mem_of_mem_head? hx,
    eq_ok_of_toOption hresult, hnames⟩
  have hfound := eq_ok_of_toOption htypes
  unfold SourceModel.wellKnown at hfound
  split at hfound
  · rename_i hmarker _
    cases hfound
    exact hmarker
  · cases hfound

/-- A class that is marked in two files, the second time by a constant. -/
def markedInTwoFiles : List Document :=
  [⟨"a.cs", "class M\x7b\x7dclass R\x7bint P=>1;int Q=>2;const string N=\"P\";\x7d" ++
      "[M(\"Q\")]partial class A\x7b\x7d", .source⟩,
    ⟨"b.cs", "[M(R.N)]partial class A\x7b\x7d", .source⟩]

/-- The properties of a class that is marked in two files are those of the two usages, in the order of
the files. -/
theorem usages_exact_markedInTwoFiles :
    ∃ (c : Compilation) (types : WellKnownTypes) (key : TypeKey) (result : SynthesizedClass),
    build markedInTwoFiles = .ok c ∧ c.model.lookup? sampleSettings.marker = some types.marker ∧
    List.Forall₂ (c.Copies types.repository) (c.usages types.marker key) result.properties ∧
    result.properties.map (·.name) = ["Q", "P"] := by
  obtain ⟨c, types, x, result, built, hmarker, hx, hresult, hnames⟩ := of_firstNames?_eq_some
    (show firstNames? sampleSettings markedInTwoFiles = some ["Q", "P"] by decide +kernel)
  obtain ⟨-, -, hcandidates⟩ := usages_exact built hmarker
  obtain ⟨key, result', -, heq, hcopies, -⟩ := (hcandidates x hx).2 _ hresult
  obtain rfl := Option.some.inj heq
  exact ⟨c, types, key, result, built, hmarker, hcopies, hnames⟩

end Compilation

end Graft
