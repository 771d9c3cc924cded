/-
Module: Graft.Proofs.Generator.Correspondence
Purpose: The artifacts of a pass and the marked types.
Main exports: SourceModel.IsMarked, SourceModel.MarkedTwice, Pass.commit_cases,
  Compilation.classes_of_completed, Compilation.artifacts_of_marked_types

Candidates are declarations, artifacts are for types, and names are made of both.  The three agree if
no type is marked on two of its declarations.  Otherwise the type gets its artifact once for each of
them, and the second one finds its name taken.
-/
import Mathlib.Data.List.Forall2
import Graft.Proofs.Generator.Hints

namespace Graft

/-! ### Marked declarations -/

namespace SourceModel

variable (m : SourceModel)

/-- A declaration of a class in the program's own files has an attribute of the class `marker`. -/
structure IsMarked (marker : TypeKey) (d : TypeDecl) : Prop where
  file : ∃ f ∈ m.files, d ∈ f.typeDecls
  kind : d.kind = .classKind
  mark : ∃ a ∈ d.allAttributes, m.attributeClass? d.id a = some marker

/-- The class `marker` of the settings marks a declaration of the type. -/
def IsMarkedType (name : String) (key : TypeKey) : Prop :=
  ∃ marker d, m.lookup? name = some marker ∧ m.IsMarked marker d ∧ m.declaredType? d.id = some key

/-- Two declarations of one type are marked. -/
def MarkedTwice (name : String) : Prop :=
  ∃ marker d e key, m.lookup? name = some marker ∧ m.IsMarked marker d ∧ m.IsMarked marker e ∧
    d.id ≠ e.id ∧ m.declaredType? d.id = some key ∧ m.declaredType? e.id = some key

/-- An artifact is the one that the settings ask for a type. -/
def IsArtifactOf (config : GeneratorConfig) (key : TypeKey) (a : Artifact) : Prop :=
  ∃ types e result, m.wellKnown config = .ok types ∧ m.entry? key = some e ∧
    m.synthesizeType types e = .ok result ∧ a = result.artifact config

variable {m}

theorem mem_scan_iff {d : TypeDecl} :
    d ∈ m.scan ↔ (∃ f ∈ m.files, d ∈ f.typeDecls) ∧ d.kind = .classKind ∧ d.attributes ≠ [] := by
  simp only [scan, SourceFile.typeDecls, List.mem_filterMap, List.mem_filter, List.mem_flatMap]
  constructor
  · rintro ⟨node, ⟨⟨f, hf, hnode⟩, hcandidate⟩, hd⟩
    cases node with
    | type e =>
        cases hd
        have hcandidate : d.kind = .classKind ∧ d.attributes ≠ [] := by
          simpa [SyntaxNode.isCandidate] using hcandidate
        exact ⟨⟨f, hf, .type d, hnode, rfl⟩, hcandidate⟩
    | file | directive | space | member => cases hd
  · rintro ⟨⟨f, hf, node, hnode, hd⟩, hkind, hattributes⟩
    cases node with
    | type e =>
        cases hd
        exact ⟨.type d, ⟨⟨f, hf, hnode⟩, by simp [SyntaxNode.isCandidate, hkind, hattributes]⟩, rfl⟩
    | file | directive | space | member => cases hd

/-- The declarations that pass the filter are the marked ones. -/
theorem isMarked_iff {marker : TypeKey} {d : TypeDecl} :
    m.IsMarked marker d ↔ d ∈ m.scan.filter (m.isMarked marker) := by
  simp only [List.mem_filter, mem_scan_iff, isMarked, List.any_eq_true, decide_eq_true_eq]
  constructor
  · rintro ⟨file, kind, a, ha, hmark⟩
    refine ⟨⟨file, kind, ?_⟩, a, ha, hmark⟩
    intro hnil
    simp [TypeDeclOf.allAttributes, hnil] at ha
  · rintro ⟨⟨file, kind, -⟩, mark⟩
    exact ⟨file, kind, mark⟩

/-! ### Candidates -/

theorem mem_firstOfDecl {seen : List DeclId} {list : List Candidate} {id : DeclId} :
    id ∈ (firstOfDecl seen list).map (·.decl) ↔ id ∉ seen ∧ id ∈ list.map (·.decl) := by
  induction list generalizing seen with
  | nil => simp [firstOfDecl]
  | cons c rest ih =>
      rw [firstOfDecl]
      split
      · rename_i hseen
        rw [ih, List.map_cons, List.mem_cons]
        constructor
        · exact fun h => ⟨h.1, .inr h.2⟩
        · rintro ⟨hid, rfl | hrest⟩
          · exact absurd hseen hid
          · exact ⟨hid, hrest⟩
      · rename_i hseen
        rw [List.map_cons, List.mem_cons, ih, List.map_cons, List.mem_cons, List.mem_cons]
        constructor
        · rintro (rfl | ⟨hid, hrest⟩)
          · exact ⟨hseen, .inl rfl⟩
          · exact ⟨fun h => hid (.inr h), .inr hrest⟩
        · rintro ⟨hid, rfl | hrest⟩
          · exact .inl rfl
          · by_cases h : id = c.decl
            · exact .inl h
            · exact .inr ⟨by rintro (h' | h'); exacts [h h', hid h'], hrest⟩

theorem nodup_firstOfDecl (seen : List DeclId) (list : List Candidate) :
    ((firstOfDecl seen list).map (·.decl)).Nodup := by
  induction list generalizing seen with
  | nil => simp [firstOfDecl]
  | cons c rest ih =>
      rw [firstOfDecl]
      split
      · exact ih seen
      · rw [List.map_cons, List.nodup_cons]
        refine ⟨fun h => ?_, ih _⟩
        exact (mem_firstOfDecl.1 h).1 List.mem_cons_self

/-- The candidates are the marked declarations, each once. -/
theorem mem_candidates_iff {name : String} {marker : TypeKey} (h : m.lookup? name = some marker)
    {id : DeclId} :
    id ∈ (m.candidates name m.scan).map (·.decl) ↔ ∃ d, m.IsMarked marker d ∧ d.id = id := by
  rw [candidates, h]
  dsimp only
  rw [mem_firstOfDecl]
  simp [isMarked_iff, and_assoc]

theorem nodup_candidates (name : String) (decls : List TypeDecl) :
    ((m.candidates name decls).map (·.decl)).Nodup := by
  unfold candidates
  split
  · simp
  · exact nodup_firstOfDecl _ _

end SourceModel

/-! ### Passes -/

theorem exists_of_mem_right {α β : Type} {R : α → β → Prop} {left : List α} {right : List β}
    (related : List.Forall₂ R left right) {b : β} (hb : b ∈ right) : ∃ a ∈ left, R a b := by
  induction related with
  | nil => cases hb
  | cons h _ ih =>
      rcases List.mem_cons.1 hb with rfl | hb
      · exact ⟨_, List.mem_cons_self, h⟩
      · obtain ⟨a, ha, hab⟩ := ih hb
        exact ⟨a, List.mem_cons_of_mem _ ha, hab⟩

theorem forall₂_flip {α β : Type} {R : α → β → Prop} {left : List α} {right : List β}
    (related : List.Forall₂ R left right) : List.Forall₂ (fun b a => R a b) right left :=
  List.Forall₂.flip (R := fun b a => R a b) related

/-- Two relations between lists, one after the other. -/
theorem forall₂_comp {α β γ : Type} {R : α → β → Prop} {S : β → γ → Prop} {as : List α} {bs : List β}
    {cs : List γ} (h : List.Forall₂ R as bs) (h' : List.Forall₂ S bs cs) :
    List.Forall₂ (fun a c => ∃ b, R a b ∧ S b c) as cs := by
  induction h generalizing cs with
  | nil =>
      cases h'
      exact .nil
  | cons hab _ ih =>
      cases h' with
      | cons hbc hrest => exact .cons ⟨_, hab, hbc⟩ (ih hrest)

private theorem eq_of_forall₂_of_nodup {α β : Type} {R : α → β → Prop} {left : List α}
    {right : List β} (related : List.Forall₂ R left right)
    (functional : ∀ a b b', R a b → R a b' → b = b') (nodup : right.Nodup) {x y : α} {b : β}
    (hx : x ∈ left) (hy : y ∈ left) (hxb : R x b) (hyb : R y b) : x = y := by
  induction related with
  | nil => cases hx
  | @cons a b' as bs hab hrest ih =>
      rw [List.nodup_cons] at nodup
      rcases List.mem_cons.1 hx with rfl | hx'
      · rcases List.mem_cons.1 hy with rfl | hy'
        · rfl
        · obtain ⟨c, hc, hyc⟩ := exists_of_mem_right (forall₂_flip hrest) hy'
          rw [functional _ _ _ hab hxb, functional _ _ _ hyb hyc] at nodup
          exact absurd hc nodup.1
      · rcases List.mem_cons.1 hy with rfl | hy'
        · obtain ⟨c, hc, hxc⟩ := exists_of_mem_right (forall₂_flip hrest) hx'
          rw [functional _ _ _ hab hyb, functional _ _ _ hxb hxc] at nodup
          exact absurd hc nodup.1
        · exact ih nodup.2 hx' hy'

private theorem nodup_map_of_forall₂ {α β γ δ : Type} {R : α → β → Prop} {f : α → γ} {g : β → δ}
    {left : List α} {right : List β} (related : List.Forall₂ R left right)
    (hR : ∀ a ∈ left, ∀ b ∈ left, ∀ x y, R a x → R b y → g x = g y → f a = f b)
    (nodup : (left.map f).Nodup) : (right.map g).Nodup := by
  induction related with
  | nil => simp
  | @cons a x as xs hax hrest ih =>
      rw [List.map_cons, List.nodup_cons] at nodup ⊢
      refine ⟨fun hmem => nodup.1 ?_, ih (fun b hb c hc => hR b (List.mem_cons_of_mem _ hb) c
        (List.mem_cons_of_mem _ hc)) nodup.2⟩
      obtain ⟨y, hy, hxy⟩ := List.mem_map.1 hmem
      obtain ⟨b, hb, hby⟩ := exists_of_mem_right hrest hy
      rw [hR a List.mem_cons_self b (List.mem_cons_of_mem _ hb) x y hax hby hxy.symm]
      exact List.mem_map_of_mem hb

theorem stage_of_mem {staged : List Artifact} {a : Artifact} (h : a.hint ∈ staged.map (·.hint)) :
    ∃ first second, stage staged a = .error (.nameCollision a.hint first second) := by
  obtain ⟨b, hb, hhint⟩ := List.mem_map.1 h
  have hsome : (staged.find? (·.hint = a.hint)).isSome :=
    List.find?_isSome.2 ⟨b, hb, by simpa using hhint⟩
  obtain ⟨first, hfirst⟩ := Option.isSome_iff_exists.1 hsome
  rw [stage, hfirst]
  exact ⟨_, _, rfl⟩

theorem stage_of_not_mem {staged : List Artifact} {a : Artifact}
    (h : a.hint ∉ staged.map (·.hint)) : stage staged a = .ok (staged ++ [a]) := by
  have hnone : staged.find? (·.hint = a.hint) = none := by
    rw [List.find?_eq_none]
    intro b hb heq
    exact h (List.mem_map.2 ⟨b, hb, by simpa using heq⟩)
  rw [stage, hnone]

namespace Pass

/-- Classes are staged if no two names are the same, and otherwise not. -/
theorem foldlM_stage (config : GeneratorConfig) (classes : List SynthesizedClass) :
    ∀ staged : List Artifact, (staged.map (·.hint)).Nodup →
      let result := classes.foldlM (fun staged c => stage staged (c.artifact config)) staged
      ((staged.map (·.hint) ++ classes.map (·.hint config)).Nodup ∧
        result = .ok (staged ++ classes.map (·.artifact config))) ∨
      (¬(staged.map (·.hint) ++ classes.map (·.hint config)).Nodup ∧
        ∃ hint first second, result = .error (.nameCollision hint first second)) := by
  induction classes with
  | nil =>
      intro staged nodup
      exact .inl ⟨by simpa using nodup, by simp [pure, Except.pure]⟩
  | cons c rest ih =>
      intro staged nodup
      rw [List.foldlM_cons]
      by_cases hmem : c.hint config ∈ staged.map (·.hint)
      · obtain ⟨first, second, hstage⟩ := stage_of_mem (a := c.artifact config) hmem
        refine .inr ⟨fun h => ?_, _, first, second, by rw [hstage]; rfl⟩
        exact (List.nodup_append.1 h).2.2 _ hmem (c.hint config) (by simp) rfl
      · have hnodup : ((staged ++ [c.artifact config]).map (·.hint)).Nodup := by
          rw [List.map_append, List.nodup_append]
          refine ⟨nodup, by simp, ?_⟩
          intro hint hhint other hother
          obtain rfl : other = c.hint config := by
            simpa [SynthesizedClass.artifact] using hother
          exact fun heq => hmem (heq ▸ hhint)
        have hrest := ih (staged ++ [c.artifact config]) hnodup
        rw [stage_of_not_mem (a := c.artifact config) hmem]
        simpa [SynthesizedClass.artifact, bind, Except.bind] using hrest

/-- The results of a pass that is not cancelled are those of the candidates. -/
theorem results_eq {m : SourceModel} {types : WellKnownTypes} {cancelled : Cancellation}
    {candidates : List Candidate} {asked asked' : List DeclId} {list : List ClassResult}
    (h : results m types cancelled asked candidates = (asked', some list)) :
    list = candidates.map (m.synthesize types) := by
  induction candidates generalizing asked list with
  | nil =>
      cases h
      rfl
  | cons c rest ih =>
      rw [results] at h
      split at h
      · cases h
      · obtain ⟨hasked, hlist⟩ := Prod.mk.inj h
        obtain ⟨more, hmore, rfl⟩ := Option.map_eq_some_iff.1 hlist
        rw [List.map_cons, ih (Prod.ext hasked hmore)]

/-- How a pass ends, if it does not commit the results of its candidates. -/
def EndsEarly (outcome : Except GenerationError PassOutput) : Prop :=
  match outcome with
  | .ok output => ∀ count, output.status ≠ .completed count
  | .error e => ∀ hint first second, e ≠ .nameCollision hint first second

/-- A pass commits the results of its candidates or ends early. -/
theorem run_cases (config : GeneratorConfig) (m : SourceModel) (cancelled : Cancellation) :
    EndsEarly (run config m cancelled).outcome ∨
    ∃ types, m.wellKnown config = .ok types ∧
      (run config m cancelled).outcome =
        commit config ((m.candidates config.marker m.scan).map (m.synthesize types)) := by
  unfold run
  cases m.candidates config.marker m.scan with
  | nil => exact .inl fun count => by simp
  | cons x rest =>
      dsimp only
      cases m.wellKnown config with
      | error missing => exact .inl fun count => by simp
      | ok types =>
          dsimp only
          cases hresults : results m types cancelled [] (x :: rest) with
          | mk asked list? =>
              cases list? with
              | none => exact .inl fun hint first second => by simp
              | some list =>
                  refine .inr ⟨types, rfl, ?_⟩
                  rw [results_eq hresults]

/-- How the results of a pass are committed. -/
theorem commit_cases (config : GeneratorConfig) (list : List ClassResult) :
    (∃ errors, commit config list = .error (.synthesis errors)) ∨
    ((∀ r ∈ list, ∃ c?, r = .ok c?) ∧
      let classes := list.filterMap class?
      (((classes.map (·.hint config)).Nodup ∧
        commit config list = .ok ⟨.completed classes.length, classes.map (·.artifact config)⟩) ∨
      (¬(classes.map (·.hint config)).Nodup ∧
        ∃ hint first second, commit config list = .error (.nameCollision hint first second)))) := by
  unfold commit
  dsimp only
  by_cases herrors : (list.filterMap error?).isEmpty
  · refine .inr ⟨fun r hr => ?_, ?_⟩
    · cases r with
      | ok c? => exact ⟨c?, rfl⟩
      | error e =>
          have hmem : e ∈ list.filterMap error? := List.mem_filterMap.2 ⟨_, hr, rfl⟩
          rw [List.isEmpty_iff.1 herrors] at hmem
          cases hmem
    · rw [if_pos herrors]
      rcases foldlM_stage config (list.filterMap class?) [] (by simp) with
        ⟨hnodup, hresult⟩ | ⟨hnodup, hint, first, second, hresult⟩
      · refine .inl ⟨by simpa using hnodup, ?_⟩
        rw [hresult]
        simp [bind, Except.bind, pure, Except.pure]
      · refine .inr ⟨by simpa using hnodup, hint, first, second, ?_⟩
        rw [hresult]
        rfl
  · rw [if_neg herrors]
    exact .inl ⟨_, rfl⟩

end Pass

namespace Compilation

variable {documents : List Document} {c : Compilation} {config : GeneratorConfig}
  {types : WellKnownTypes}

/-! ### Classes of candidates -/

/-- The class that a pass makes for a type. -/
def Makes (c : Compilation) (types : WellKnownTypes) (key : TypeKey) (result : SynthesizedClass) :
    Prop :=
  ∃ e, c.registry.get? key = some e ∧ c.model.synthesizeType types e = .ok result

theorem Makes.unique {key : TypeKey} {result result' : SynthesizedClass}
    (h : c.Makes types key result) (h' : c.Makes types key result') : result = result' := by
  obtain ⟨e, he, hresult⟩ := h
  obtain ⟨e', he', hresult'⟩ := h'
  obtain rfl := Option.some.inj (he.symm.trans he')
  exact Except.ok.inj (hresult.symm.trans hresult')

/-- A marked declaration is part of a registered type. -/
theorem get?_of_isMarked {marker : TypeKey} {d : TypeDecl} (marked : c.model.IsMarked marker d) :
    ∃ key e, c.declaredType? d.id = some key ∧ c.registry.get? key = some e := by
  obtain ⟨a, -, hclass⟩ := marked.mark
  change c.attributeClass? d.id a = some marker at hclass
  simp only [attributeClass?, Option.bind_eq_bind, Option.bind_eq_some_iff] at hclass
  obtain ⟨key, hkey, e, he, -⟩ := hclass
  exact ⟨key, e, hkey, he⟩

/-- If no candidate fails, each gives the class of the type that its declaration is part of. -/
theorem forall₂_of_synthesize {marker : TypeKey} (candidates : List Candidate)
    (hmarked : ∀ x ∈ candidates, ∃ d, c.model.IsMarked marker d ∧ d.id = x.decl)
    (hok : ∀ r ∈ candidates.map (c.model.synthesize types), ∃ result?, r = .ok result?) :
    ∃ keys, List.Forall₂ (fun x key => c.declaredType? x.decl = some key) candidates keys ∧
      List.Forall₂ (c.Makes types) keys
        ((candidates.map (c.model.synthesize types)).filterMap Pass.class?) := by
  induction candidates with
  | nil => exact ⟨[], .nil, .nil⟩
  | cons x rest ih =>
      obtain ⟨keys, hkeys, hclasses⟩ := ih (fun y hy => hmarked y (List.mem_cons_of_mem _ hy))
        fun r hr => hok r (List.mem_cons_of_mem _ hr)
      obtain ⟨d, marked, hid⟩ := hmarked x List.mem_cons_self
      obtain ⟨key, e, hkey, he⟩ := get?_of_isMarked marked
      rw [hid] at hkey
      have hdeclared : c.model.declaredType? x.decl = some key := hkey
      have hentry : c.model.entry? key = some e := he
      cases hresult : c.model.synthesizeType types e with
      | error cause =>
          have hsynthesize : c.model.synthesize types x =
              .error ⟨(c.model.displayName? key).getD x.name, x.span, cause⟩ := by
            simp only [SourceModel.synthesize, hdeclared, hentry, hresult]
          obtain ⟨result?, heq⟩ := hok (c.model.synthesize types x) List.mem_cons_self
          exact absurd (hsynthesize.symm.trans heq) (by simp)
      | ok result =>
          have hsynthesize : c.model.synthesize types x = .ok (some result) := by
            simp only [SourceModel.synthesize, hdeclared, hentry, hresult]
          refine ⟨key :: keys, .cons hkey hkeys, ?_⟩
          rw [List.map_cons, hsynthesize]
          exact .cons ⟨e, he, hresult⟩ hclasses

/-- The candidates of a pass that commits: the types of their declarations, and the classes made for
these. -/
theorem candidates_of_synthesize (hok : ∀ r ∈ (c.model.candidates config.marker c.model.scan).map
      (c.model.synthesize types), ∃ result?, r = .ok result?) :
    ∃ keys, (∀ key, key ∈ keys ↔ c.model.IsMarkedType config.marker key) ∧
      List.Forall₂ (fun x key => c.declaredType? x.decl = some key)
        (c.model.candidates config.marker c.model.scan) keys ∧
      List.Forall₂ (c.Makes types) keys (((c.model.candidates config.marker c.model.scan).map
        (c.model.synthesize types)).filterMap Pass.class?) := by
  cases hmarker : c.model.lookup? config.marker with
  | none =>
      have hnil : c.model.candidates config.marker c.model.scan = [] := by
        rw [SourceModel.candidates, hmarker]
      rw [hnil]
      refine ⟨[], fun key => ⟨fun h => (List.not_mem_nil h).elim, ?_⟩, .nil, .nil⟩
      rintro ⟨marker, d, h, -⟩
      rw [hmarker] at h
      cases h
  | some marker =>
      obtain ⟨keys, hkeys, hclasses⟩ := forall₂_of_synthesize _ (fun x hx =>
        (SourceModel.mem_candidates_iff hmarker).1 (List.mem_map_of_mem hx)) hok
      refine ⟨keys, fun key => ⟨fun hkey => ?_, ?_⟩, hkeys, hclasses⟩
      · obtain ⟨x, hx, hdeclared⟩ := exists_of_mem_right hkeys hkey
        obtain ⟨d, marked, hid⟩ :=
          (SourceModel.mem_candidates_iff hmarker).1 (List.mem_map_of_mem hx)
        exact ⟨marker, d, hmarker, marked, by rw [hid]; exact hdeclared⟩
      · rintro ⟨marker', d, hmarker', marked, hdeclared⟩
        obtain rfl := Option.some.inj (hmarker.symm.trans hmarker')
        obtain ⟨x, hx, hid⟩ := List.mem_map.1
          ((SourceModel.mem_candidates_iff hmarker).2 ⟨d, marked, rfl⟩)
        obtain ⟨key', hkey', hx'⟩ := exists_of_mem_right (forall₂_flip hkeys) hx
        obtain rfl : key = key' := by
          rw [hid] at hx'
          exact Option.some.inj (hdeclared.symm.trans hx')
        exact hkey'

/-- If every marked type has one marked declaration, no type has two candidates. -/
theorem nodup_of_not_markedTwice (once : ¬c.model.MarkedTwice config.marker) {keys : List TypeKey}
    (hkeys : List.Forall₂ (fun x key => c.declaredType? x.decl = some key)
      (c.model.candidates config.marker c.model.scan) keys) : keys.Nodup := by
  rw [← List.map_id keys]
  refine nodup_map_of_forall₂ hkeys (fun x hx y hy key key' hkey hkey' heq => ?_)
    (SourceModel.nodup_candidates config.marker c.model.scan)
  by_contra hne
  apply once
  cases hmarker : c.model.lookup? config.marker with
  | none =>
      rw [SourceModel.candidates, hmarker] at hx
      cases hx
  | some marker =>
      obtain ⟨d, marked, hid⟩ :=
        (SourceModel.mem_candidates_iff hmarker).1 (List.mem_map_of_mem hx)
      obtain ⟨e, marked', hid'⟩ :=
        (SourceModel.mem_candidates_iff hmarker).1 (List.mem_map_of_mem hy)
      obtain rfl : key = key' := heq
      exact ⟨marker, d, e, key, hmarker, marked, marked', by rw [hid, hid']; exact hne,
        by rw [hid]; exact hkey, by rw [hid']; exact hkey'⟩

/-- Two candidates of one type take its key twice. -/
theorem not_nodup_of_markedTwice (twice : c.model.MarkedTwice config.marker) {keys : List TypeKey}
    (hkeys : List.Forall₂ (fun x key => c.declaredType? x.decl = some key)
      (c.model.candidates config.marker c.model.scan) keys) : ¬keys.Nodup := by
  obtain ⟨marker, d, e, key, hmarker, marked, marked', hne, hd, he⟩ := twice
  obtain ⟨x, hx, hxid⟩ := List.mem_map.1
    ((SourceModel.mem_candidates_iff hmarker).2 ⟨d, marked, rfl⟩)
  obtain ⟨y, hy, hyid⟩ := List.mem_map.1
    ((SourceModel.mem_candidates_iff hmarker).2 ⟨e, marked', rfl⟩)
  intro nodup
  have heq : x = y := eq_of_forall₂_of_nodup hkeys
    (fun _ _ _ h h' => Option.some.inj (h.symm.trans h')) nodup hx hy
    (show c.declaredType? x.decl = some key by rw [hxid]; exact hd)
    (show c.declaredType? y.decl = some key by rw [hyid]; exact he)
  exact hne (by rw [← hxid, ← hyid, heq])

/-- The classes of a pass that completes are those of the marked types, one for each. -/
theorem classes_of_completed {cancelled : Cancellation} {count : Nat} {artifacts : List Artifact}
    (completed : (Pass.run config c.model cancelled).outcome = .ok ⟨.completed count, artifacts⟩) :
    ∃ types keys classes, c.model.wellKnown config = .ok types ∧ keys.Nodup ∧
      (∀ key, key ∈ keys ↔ c.model.IsMarkedType config.marker key) ∧
      List.Forall₂ (fun x key => c.declaredType? x.decl = some key)
        (c.model.candidates config.marker c.model.scan) keys ∧
      List.Forall₂ (c.Makes types) keys classes ∧ (classes.map (·.hint config)).Nodup ∧
      artifacts = classes.map (·.artifact config) := by
  rcases Pass.run_cases config c.model cancelled with hearly | ⟨types, htypes, hcommit⟩
  · rw [completed] at hearly
    exact absurd rfl (hearly count)
  rw [completed] at hcommit
  rcases Pass.commit_cases config ((c.model.candidates config.marker c.model.scan).map
    (c.model.synthesize types))
    with ⟨errors, herrors⟩ | ⟨hok, ⟨hnodup, hcompleted⟩ | ⟨-, _, _, _, hcollision⟩⟩
  · rw [herrors] at hcommit
    cases hcommit
  · obtain ⟨keys, hmarked, hkeys, hclasses⟩ := candidates_of_synthesize hok
    rw [hcompleted] at hcommit
    have hartifacts := (PassOutput.mk.inj (Except.ok.inj hcommit)).2
    refine ⟨types, keys, _, htypes, ?_, hmarked, hkeys, hclasses, hnodup, hartifacts⟩
    rw [← List.map_id keys]
    refine nodup_map_of_forall₂ (forall₂_flip hclasses)
      (fun result _ result' _ key key' h h' heq => ?_) hnodup
    obtain rfl : key = key' := heq
    rw [h.unique h']
  · rw [hcollision] at hcommit
    cases hcommit

/-- What comes of a pass over a compilation.  The artifacts of a pass that completes are those of the
marked types, one for each.  No name is taken twice unless two declarations of one type are marked, or
a key stands for two types; and no pass completes if two declarations of one type are marked. -/
theorem artifacts_of_marked_types (built : build documents = .ok c)
    (naming : config.naming = .qualified) (cancelled : Cancellation) :
    let outcome := (Pass.run config c.model cancelled).outcome
    (∀ count artifacts, outcome = .ok ⟨.completed count, artifacts⟩ →
      ∃ keys : List TypeKey, keys.Nodup ∧
        (∀ key, key ∈ keys ↔ c.model.IsMarkedType config.marker key) ∧
        List.Forall₂ (c.model.IsArtifactOf config) keys artifacts ∧
        (artifacts.map (·.hint)).Nodup) ∧
    (∀ hint first second, outcome = .error (.nameCollision hint first second) →
      c.model.MarkedTwice config.marker ∨ ¬c.Faithful) ∧
    (c.model.MarkedTwice config.marker →
      ∀ count artifacts, outcome ≠ .ok ⟨.completed count, artifacts⟩) := by
  intro outcome
  refine ⟨fun count artifacts completed => ?_, fun hint first second collision => ?_,
    fun twice count artifacts completed => ?_⟩
  · obtain ⟨types, keys, classes, htypes, hkeysNodup, hmarked, -, hclasses, hnodup, rfl⟩ :=
      classes_of_completed completed
    refine ⟨keys, hkeysNodup, hmarked, ?_, ?_⟩
    · rw [List.forall₂_map_right_iff]
      refine hclasses.imp fun key result ⟨e, he, hresult⟩ => ?_
      exact ⟨types, e, result, htypes, he, hresult, rfl⟩
    · rw [List.map_map]
      exact hnodup
  · rcases Pass.run_cases config c.model cancelled with hearly | ⟨types, htypes, hcommit⟩
    · change Pass.EndsEarly outcome at hearly
      rw [collision] at hearly
      exact absurd rfl (hearly hint first second)
    rcases Pass.commit_cases config ((c.model.candidates config.marker c.model.scan).map
      (c.model.synthesize types)) with ⟨errors, herrors⟩ | ⟨hok, ⟨-, hcompleted⟩ | ⟨hnodup, -⟩⟩
    · cases collision.symm.trans (hcommit.trans herrors)
    · cases collision.symm.trans (hcommit.trans hcompleted)
    · obtain ⟨keys, -, hkeys, hclasses⟩ := candidates_of_synthesize hok
      by_contra hneither
      rw [not_or, not_not] at hneither
      refine hnodup (nodup_map_of_forall₂ hclasses (fun key _ key' _ result result' h h' heq => ?_)
        (by rw [List.map_id]; exact nodup_of_not_markedTwice hneither.1 hkeys) (f := id))
      obtain ⟨e, he, hresult⟩ := h
      obtain ⟨e', he', hresult'⟩ := h'
      exact key_eq_of_hint_eq built hneither.2 naming he he' hresult hresult' heq
  · obtain ⟨_, keys, _, -, hkeysNodup, -, hkeys, -⟩ := classes_of_completed completed
    exact absurd hkeysNodup (not_nodup_of_markedTwice twice hkeys)

/-! ### Sample passes -/

/-- What comes of a pass over documents that can be compiled. -/
def outcome? (config : GeneratorConfig) (documents : List Document) :
    Option (Except GenerationError PassOutput) :=
  (build documents).toOption.map fun c => (Pass.run config c.model fun _ => false).outcome

theorem of_outcome?_eq_some {outcome : Except GenerationError PassOutput}
    (h : outcome? config documents = some outcome) :
    ∃ c, build documents = .ok c ∧ (Pass.run config c.model fun _ => false).outcome = outcome := by
  unfold outcome? at h
  cases hbuild : build documents with
  | error e =>
      rw [hbuild] at h
      cases h
  | ok c =>
      rw [hbuild] at h
      exact ⟨c, rfl, Option.some.inj h⟩

/-- Settings with short names. -/
def sampleSettings : GeneratorConfig := ⟨"M", "R", .qualified, ".g.cs", [], false⟩

/-- A class that is marked once, with all that the settings name. -/
def markedOnce : List Document :=
  [⟨"a.cs", "class M{}class R{int P=>1;}[M(\"P\")]partial class A{}", .source⟩]

/-- A class of which two declarations are marked. -/
def markedTwice : List Document :=
  [⟨"a.cs", "class M{}class R{int P=>1;}[M(\"P\")]partial class A{}[M(\"P\")]partial class A{}",
    .source⟩]

/-- The one artifact for a class that is marked once is for the one marked type. -/
theorem artifacts_of_marked_types_markedOnce :
    ∃ c, build markedOnce = .ok c ∧ ∃ key, ∀ other, c.model.IsMarkedType "M" other ↔ other = key := by
  have hrun : outcome? sampleSettings markedOnce = some (.ok ⟨.completed 1, [⟨"A.g.cs", ⟨"A", []⟩,
      "public partial class A\n\x7b\n\tpublic int P =>1;\n\x7d\n"⟩]⟩) := by decide +kernel
  obtain ⟨c, built, houtcome⟩ := of_outcome?_eq_some hrun
  obtain ⟨keys, -, hkeys, hartifacts, -⟩ :=
    (artifacts_of_marked_types built (show sampleSettings.naming = .qualified from rfl)
      fun _ => false).1 _ _ houtcome
  obtain ⟨key, rfl⟩ := List.length_eq_one_iff.1 hartifacts.length_eq
  exact ⟨c, built, key, fun other => (hkeys other).symm.trans List.mem_singleton⟩

/-- A class of which two declarations are marked takes its own name twice. -/
theorem nameCollision_of_markedTwice :
    ∃ c, build markedTwice = .ok c ∧ (Pass.run sampleSettings c.model fun _ => false).outcome =
      .error (.nameCollision "A.g.cs" "A" "A") :=
  of_outcome?_eq_some (by decide +kernel)

/-- A marked class whose name is a reserved word behind an `@`. -/
def reservedName : List Document :=
  [⟨"a.cs", "class M\x7b\x7dclass R\x7bint P=>1;\x7d[M(\"P\")]partial class @class\x7b\x7d", .source⟩]

/-- The artifact for a class whose name is a reserved word is refused as a part of the program. -/
theorem artifact_refused_of_reservedName :
    ∃ c a, build reservedName = .ok c ∧
      (Pass.run sampleSettings c.model fun _ => false).outcome = .ok ⟨.completed 1, [a]⟩ ∧
      (build (reservedName ++ [⟨a.hint, a.text, .source⟩])).toOption.isNone := by
  have hrun : outcome? sampleSettings reservedName = some (.ok ⟨.completed 1, [⟨"class.g.cs",
      ⟨"class", []⟩, "public partial class class\n\x7b\n\tpublic int P =>1;\n\x7d\n"⟩]⟩) := by
    decide +kernel
  obtain ⟨c, built, houtcome⟩ := of_outcome?_eq_some hrun
  exact ⟨c, _, built, houtcome, by decide +kernel⟩

end Compilation

end Graft
