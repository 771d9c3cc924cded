/-
Module: Graft.Proofs.Generator.Outcomes
Purpose: How a pass ends, for every program and whenever it is cancelled.
Main exports: SourceModel.Known, SourceModel.EndsAround, Pass.IsSetBefore, Pass.Ends, Pass.ends_run,
  Pass.outcome_exact

A pass can end in six ways.  They are asked about in a fixed order: whether there are candidates, whether
the repository type is there, whether the pass is cancelled before some candidate, whether some candidate
fails, and whether two names are the same.  `Ends` says of each way when it is the one and what the pass
has done by then.
-/
import Graft.Proofs.Generator.Correspondence

namespace Graft

/-! ### Candidates -/

namespace SourceModel

variable (m : SourceModel)

/-- The declaration of a candidate is part of a type that is known. -/
def Known (c : Candidate) : Prop := ∃ key e, m.declaredType? c.decl = some key ∧ m.entry? key = some e

instance (c : Candidate) : Decidable (m.Known c) :=
  decidable_of_iff (((m.declaredType? c.decl).bind m.entry?).isSome) <| by
    simp only [Known, Option.isSome_iff_exists, Option.bind_eq_some_iff]
    exact exists_comm

/-- The errors of the candidates that fail, in the order of the candidates. -/
def failures (types : WellKnownTypes) (candidates : List Candidate) : List ClassError :=
  candidates.filterMap fun c =>
    match m.synthesize types c with
    | .error e => some e
    | .ok _ => none

/-- The classes of the candidates that get one, in the order of the candidates. -/
def classes (types : WellKnownTypes) (candidates : List Candidate) : List SynthesizedClass :=
  candidates.filterMap fun c =>
    match m.synthesize types c with
    | .ok result? => result?
    | .error _ => none

variable {m}

/-- There are candidates only if the marker is found. -/
theorem lookup?_of_candidates {name : String} {decls : List TypeDecl} (h : m.candidates name decls ≠ []) :
    ∃ marker, m.lookup? name = some marker := by
  unfold candidates at h
  split at h
  · exact absurd rfl h
  · exact ⟨_, ‹_›⟩

/-- With the marker found, only the repository type can be missing. -/
theorem wellKnown_eq {config : GeneratorConfig} {marker : TypeKey}
    (found : m.lookup? config.marker = some marker) :
    m.wellKnown config =
      match m.lookup? config.repository with
      | some repository => .ok ⟨marker, repository⟩
      | none => .error ⟨true, false⟩ := by
  rw [wellKnown, found]
  cases m.lookup? config.repository <;> rfl

/-- There are errors exactly if some candidate fails. -/
theorem failures_ne_nil_iff {types : WellKnownTypes} {candidates : List Candidate} :
    m.failures types candidates ≠ [] ↔ ∃ c ∈ candidates, ∃ e, m.synthesize types c = .error e := by
  constructor
  · intro some
    obtain ⟨e, he⟩ := List.exists_mem_of_ne_nil _ some
    obtain ⟨c, hc, hfails⟩ := List.mem_filterMap.1 he
    cases hresult : m.synthesize types c with
    | error e => exact ⟨c, hc, e, hresult⟩
    | ok result? =>
        rw [hresult] at hfails
        cases hfails
  · rintro ⟨c, hc, e, hresult⟩
    have he : e ∈ m.failures types candidates := List.mem_filterMap.2 ⟨c, hc, by rw [hresult]⟩
    exact List.ne_nil_of_mem he

/-- A candidate gets a class exactly if its type is known and the class does not fail. -/
theorem synthesize_eq_ok_some_iff {types : WellKnownTypes} {c : Candidate} {result : SynthesizedClass} :
    m.synthesize types c = .ok (some result) ↔
      ∃ key e, m.declaredType? c.decl = some key ∧ m.entry? key = some e ∧
        m.synthesizeType types e = .ok result := by
  unfold synthesize
  constructor
  · intro h
    split at h
    · cases h
    · rename_i key hkey
      split at h
      · cases h
      · rename_i e he
        split at h
        · rename_i hresult
          cases h
          exact ⟨key, e, hkey, he, hresult⟩
        · cases h
  · rintro ⟨key, e, hkey, he, hresult⟩
    rw [hkey]
    simp only [he, hresult]

/-- A candidate is passed over exactly if its type is not known. -/
theorem synthesize_eq_ok_none_iff {types : WellKnownTypes} {c : Candidate} :
    m.synthesize types c = .ok none ↔ ¬m.Known c := by
  unfold synthesize Known
  constructor
  · rintro h ⟨key, e, hkey, he⟩
    simp only [hkey, he] at h
    split at h <;> cases h
  · intro h
    split
    · rfl
    · rename_i key hkey
      split
      · rfl
      · rename_i e he
        exact absurd ⟨key, e, hkey, he⟩ h

variable (m) in
/-- The chain of types around the type of a candidate comes to an end. -/
def EndsAround (c : Candidate) : Prop :=
  ∀ key e, m.declaredType? c.decl = some key → m.entry? key = some e → ∃ headers, m.Around e headers

theorem Contained.endsAround (contained : m.Contained) (c : Candidate) : m.EndsAround c :=
  fun _ _ _ he => contained.exists_around he

/-- The class of a candidate has the headers of all types around its type. -/
theorem EndsAround.of_synthesize {types : WellKnownTypes} {c : Candidate} {result : SynthesizedClass}
    (ends : m.EndsAround c) (h : m.synthesize types c = .ok (some result)) :
    ∃ key e, m.declaredType? c.decl = some key ∧ m.entry? key = some e ∧ m.Around e result.containers := by
  obtain ⟨key, e, hkey, he, hresult⟩ := synthesize_eq_ok_some_iff.1 h
  obtain ⟨headers, around⟩ := ends key e hkey he
  have hcontainers := (fields_of_synthesizeType hresult).2.1.trans around.containerHeaders_eq
  exact ⟨key, e, hkey, he, hcontainers ▸ around⟩

/-- If no candidate fails, the classes are those of the candidates whose types are known. -/
theorem forall₂_classes {types : WellKnownTypes} {candidates : List Candidate}
    (clean : m.failures types candidates = []) :
    List.Forall₂ (fun c result => m.synthesize types c = .ok (some result))
      (candidates.filter fun c => m.Known c) (m.classes types candidates) := by
  induction candidates with
  | nil => exact .nil
  | cons c rest ih =>
      unfold failures at clean
      rw [List.filterMap_cons] at clean
      unfold classes
      rw [List.filterMap_cons]
      cases hresult : m.synthesize types c with
      | error e =>
          rw [hresult] at clean
          cases clean
      | ok result? =>
          rw [hresult] at clean
          cases result? with
          | none =>
              have unknown : ¬m.Known c := synthesize_eq_ok_none_iff.1 hresult
              rw [List.filter_cons_of_neg (by simpa using unknown)]
              exact ih clean
          | some result =>
              have known : m.Known c := by
                by_contra unknown
                rw [synthesize_eq_ok_none_iff.2 unknown] at hresult
                cases hresult
              rw [List.filter_cons_of_pos (by simpa using known)]
              exact .cons hresult (ih clean)

end SourceModel

namespace Pass

variable {config : GeneratorConfig} {m : SourceModel} {cancelled : Cancellation}

/-! ### Ways to end -/

/-- The pass is cancelled at the check before candidate number `k`: the types of the ones before it have
been asked for. -/
def IsSetBefore (cancelled : Cancellation) (candidates : List Candidate) (k : Nat) : Prop :=
  cancelled ((candidates.take k).map (·.decl))

instance (candidates : List Candidate) (k : Nat) : Decidable (IsSetBefore cancelled candidates k) :=
  inferInstanceAs (Decidable (_ = true))

/-- The six ways in which a pass over candidates ends. -/
inductive Ends (config : GeneratorConfig) (m : SourceModel) (cancelled : Cancellation)
    (candidates : List Candidate) : Pass → Prop where
  | noCandidates (none : candidates = []) :
      Ends config m cancelled candidates ⟨[], .ok ⟨.noCandidates, []⟩⟩
  | noRepository (some : candidates ≠ []) (missing : m.lookup? config.repository = none) :
      Ends config m cancelled candidates ⟨[], .ok ⟨.missingTypes ⟨true, false⟩, []⟩⟩
  | cancelled {types : WellKnownTypes} {k : Nat} (found : m.wellKnown config = .ok types)
      (lt : k < candidates.length) (set : IsSetBefore cancelled candidates k)
      (first : ∀ i < k, ¬IsSetBefore cancelled candidates i) :
      Ends config m cancelled candidates ⟨(candidates.take k).map (·.decl), .error .cancelled⟩
  | failed {types : WellKnownTypes} (found : m.wellKnown config = .ok types)
      (never : ∀ k < candidates.length, ¬IsSetBefore cancelled candidates k)
      (some : m.failures types candidates ≠ []) :
      Ends config m cancelled candidates
        ⟨candidates.map (·.decl), .error (.synthesis (m.failures types candidates))⟩
  | collided {types : WellKnownTypes} {hint first second : String} (some : candidates ≠ [])
      (found : m.wellKnown config = .ok types)
      (never : ∀ k < candidates.length, ¬IsSetBefore cancelled candidates k)
      (clean : m.failures types candidates = [])
      (repeated : ¬((m.classes types candidates).map (·.hint config)).Nodup) :
      Ends config m cancelled candidates
        ⟨candidates.map (·.decl), .error (.nameCollision hint first second)⟩
  | completed {types : WellKnownTypes} (some : candidates ≠ [])
      (found : m.wellKnown config = .ok types)
      (never : ∀ k < candidates.length, ¬IsSetBefore cancelled candidates k)
      (clean : m.failures types candidates = [])
      (nodup : ((m.classes types candidates).map (·.hint config)).Nodup) :
      Ends config m cancelled candidates ⟨candidates.map (·.decl),
        .ok ⟨.completed (m.classes types candidates).length,
          (m.classes types candidates).map (·.artifact config)⟩⟩

variable (m cancelled) in
/-- The candidates are taken one by one, until the pass is cancelled before one of them. -/
theorem results_cases (types : WellKnownTypes) (candidates : List Candidate) :
    ∀ asked : List DeclId,
      (∃ k < candidates.length, cancelled (asked ++ (candidates.take k).map (·.decl)) ∧
        (∀ i < k, ¬cancelled (asked ++ (candidates.take i).map (·.decl))) ∧
        results m types cancelled asked candidates =
          (asked ++ (candidates.take k).map (·.decl), none)) ∨
      ((∀ k < candidates.length, ¬cancelled (asked ++ (candidates.take k).map (·.decl))) ∧
        results m types cancelled asked candidates =
          (asked ++ candidates.map (·.decl), some (candidates.map (m.synthesize types)))) := by
  induction candidates with
  | nil =>
      intro asked
      exact .inr ⟨fun k hk => absurd hk (Nat.not_lt_zero k), by simp [results]⟩
  | cons c rest ih =>
      intro asked
      by_cases now : cancelled asked
      · refine .inl ⟨0, Nat.zero_lt_succ
          _, by simpa using now, fun i hi => absurd hi (Nat.not_lt_zero i), ?_⟩
        rw [results, if_pos now]
        simp
      · -- the checks before the other candidates see that the type of `c` has been asked for
        have later : ∀ k, asked ++ ((c :: rest).take (k + 1)).map (·.decl) =
            asked ++ [c.decl] ++ (rest.take k).map (·.decl) := by
          intro k
          simp
        have first : ¬cancelled (asked ++ ((c :: rest).take 0).map (·.decl)) := by simpa using now
        rcases ih (asked ++ [c.decl]) with ⟨k, hk, set, before, hresults⟩ | ⟨never, hresults⟩
        · refine .inl ⟨k + 1, Nat.succ_lt_succ hk, by rw [later]; exact set, ?_, ?_⟩
          · intro i hi
            cases i with
            | zero => exact first
            | succ i =>
                rw [later]
                exact before i (Nat.lt_of_succ_lt_succ hi)
          · rw [results, if_neg now, hresults, later]
            rfl
        · refine .inr ⟨fun k hk => ?_, ?_⟩
          · cases k with
            | zero => exact first
            | succ k =>
                rw [later]
                exact never k (Nat.lt_of_succ_lt_succ hk)
          · rw [results, if_neg now, hresults]
            simp

variable (config m) in
/-- The results of candidates are committed if none is an error. -/
theorem commit_map_synthesize (types : WellKnownTypes) (candidates : List Candidate) :
    (m.failures types candidates ≠ [] ∧ commit config (candidates.map (m.synthesize types)) =
        .error (.synthesis (m.failures types candidates))) ∨
    (m.failures types candidates = [] ∧
      ((¬((m.classes types candidates).map (·.hint config)).Nodup ∧ ∃ hint first second,
          commit config (candidates.map (m.synthesize types)) = .error (.nameCollision hint first second)) ∨
      (((m.classes types candidates).map (·.hint config)).Nodup ∧
        commit config (candidates.map (m.synthesize types)) =
          .ok ⟨.completed (m.classes types candidates).length,
            (m.classes types candidates).map (·.artifact config)⟩))) := by
  have herrors : (candidates.map (m.synthesize types)).filterMap error? = m.failures types candidates := by
    rw [List.filterMap_map]
    refine List.filterMap_congr fun c _ => ?_
    rw [Function.comp_apply]
    cases m.synthesize types c <;> rfl
  have hclasses : (candidates.map (m.synthesize types)).filterMap class? = m.classes types candidates := by
    rw [List.filterMap_map]
    refine List.filterMap_congr fun c _ => ?_
    rw [Function.comp_apply]
    cases m.synthesize types c <;> rfl
  unfold commit
  rw [herrors, hclasses]
  dsimp only
  by_cases clean : m.failures types candidates = []
  · refine .inr ⟨clean, ?_⟩
    rw [if_pos (List.isEmpty_iff.2 clean)]
    rcases foldlM_stage config (m.classes types candidates) [] (by simp) with
      ⟨nodup, hstaged⟩ | ⟨repeated, hint, first, second, hstaged⟩
    · refine .inr ⟨by simpa using nodup, ?_⟩
      rw [hstaged]
      simp [bind, Except.bind, pure, Except.pure]
    · refine .inl ⟨by simpa using repeated, hint, first, second, ?_⟩
      rw [hstaged]
      rfl
  · rw [if_neg (by simpa using clean)]
    exact .inl ⟨clean, rfl⟩

/-- A pass ends in one of the six ways. -/
theorem ends_run (config : GeneratorConfig) (m : SourceModel) (cancelled : Cancellation) :
    Ends config m cancelled (m.candidates config.marker m.scan) (run config m cancelled) := by
  unfold run
  cases hcandidates : m.candidates config.marker m.scan with
  | nil => exact .noCandidates rfl
  | cons x rest =>
      have some : x :: rest ≠ [] := List.cons_ne_nil x rest
      obtain ⟨marker, hmarker⟩ := SourceModel.lookup?_of_candidates (hcandidates ▸ some)
      have hknown := SourceModel.wellKnown_eq hmarker
      cases hrepository : m.lookup? config.repository with
      | none =>
          rw [hrepository] at hknown
          rw [hknown]
          exact .noRepository some hrepository
      | some repository =>
          rw [hrepository] at hknown
          rw [hknown]
          dsimp only
          rcases results_cases m cancelled ⟨marker, repository⟩ (x :: rest) [] with
            ⟨k, hk, set, first, hresults⟩ | ⟨never, hresults⟩
          · rw [hresults]
            exact .cancelled hknown hk set first
          · rw [hresults]
            dsimp only
            rcases commit_map_synthesize config m ⟨marker, repository⟩ (x :: rest) with
              ⟨errors, hcommit⟩ | ⟨clean, ⟨repeated, hint, first, second, hcommit⟩ | ⟨nodup, hcommit⟩⟩
            · rw [hcommit]
              exact .failed hknown never errors
            · rw [hcommit]
              exact .collided some hknown never clean repeated
            · rw [hcommit]
              exact .completed some hknown never clean nodup

/-! ### Answers -/

namespace Ends

variable {candidates : List Candidate} {pass : Pass} {types : WellKnownTypes}
  (ends : Ends config m cancelled candidates pass)
include ends

/-- A pass says that there are no candidates exactly if there are none. -/
theorem noCandidates_iff : (∃ list, pass.outcome = .ok ⟨.noCandidates, list⟩) ↔ candidates = [] := by
  constructor
  · rintro ⟨list, houtcome⟩
    cases ends with
    | noCandidates none => exact none
    | noRepository | cancelled | failed | collided | completed => cases houtcome
  · intro none
    cases ends with
    | noCandidates => exact ⟨[], rfl⟩
    | noRepository some => exact absurd none some
    | cancelled _ lt => simp [none] at lt
    | failed _ _ some => simp [none, SourceModel.failures] at some
    | collided some => exact absurd none some
    | completed some => exact absurd none some

/-- With candidates, a pass says that a type is missing exactly if the repository type is. -/
theorem missingTypes_iff (some : candidates ≠ []) :
    (∃ missing list, pass.outcome = .ok ⟨.missingTypes missing, list⟩) ↔
      m.lookup? config.repository = none := by
  constructor
  · rintro ⟨missing, list, houtcome⟩
    cases ends with
    | noRepository _ none => exact none
    | noCandidates | cancelled | failed | collided | completed => cases houtcome
  · intro none
    have unknown : ∀ types, m.wellKnown config ≠ .ok types := by
      intro types
      rw [SourceModel.wellKnown, none]
      simp
    cases ends with
    | noCandidates none => exact absurd none some
    | noRepository => exact ⟨_, _, rfl⟩
    | cancelled found => exact absurd found (unknown _)
    | failed found => exact absurd found (unknown _)
    | collided _ found => exact absurd found (unknown _)
    | completed _ found => exact absurd found (unknown _)

/-- A pass that misses a type has found the marker and makes nothing. -/
theorem missing_eq {missing : MissingTypes} {list : List Artifact}
    (houtcome : pass.outcome = .ok ⟨.missingTypes missing, list⟩) :
    missing = ⟨true, false⟩ ∧ list = [] := by
  cases ends with
  | noRepository =>
      cases houtcome
      exact ⟨rfl, rfl⟩
  | noCandidates | cancelled | failed | collided | completed => cases houtcome

section

variable (some : candidates ≠ []) (found : m.wellKnown config = .ok types)
include some found

/-- With candidates and both types found, a pass is cancelled before its first candidate that sees the
token set, or takes all of them. -/
theorem cases_of_found :
    (∃ k < candidates.length, IsSetBefore cancelled candidates k ∧
      (∀ i < k, ¬IsSetBefore cancelled candidates i) ∧
      pass = ⟨(candidates.take k).map (·.decl), .error .cancelled⟩) ∨
    ((∀ k < candidates.length, ¬IsSetBefore cancelled candidates k) ∧
      pass.asked = candidates.map (·.decl) ∧
      ((m.failures types candidates ≠ [] ∧
          pass.outcome = .error (.synthesis (m.failures types candidates))) ∨
        (m.failures types candidates = [] ∧
          ¬((m.classes types candidates).map (·.hint config)).Nodup ∧
          ∃ hint first second, pass.outcome = .error (.nameCollision hint first second)) ∨
        (m.failures types candidates = [] ∧
          ((m.classes types candidates).map (·.hint config)).Nodup ∧
          pass.outcome = .ok ⟨.completed (m.classes types candidates).length,
            (m.classes types candidates).map (·.artifact config)⟩))) := by
  cases ends with
  | noCandidates none => exact absurd none some
  | noRepository _ none =>
      rw [SourceModel.wellKnown, none] at found
      simp at found
  | cancelled _ lt set first => exact .inl ⟨_, lt, set, first, rfl⟩
  | failed found' never errors =>
      obtain rfl := Except.ok.inj (found.symm.trans found')
      exact .inr ⟨never, rfl, .inl ⟨errors, rfl⟩⟩
  | collided _ found' never clean repeated =>
      obtain rfl := Except.ok.inj (found.symm.trans found')
      exact .inr ⟨never, rfl, .inr (.inl ⟨clean, repeated, _, _, _, rfl⟩)⟩
  | completed _ found' never clean nodup =>
      obtain rfl := Except.ok.inj (found.symm.trans found')
      exact .inr ⟨never, rfl, .inr (.inr ⟨clean, nodup, rfl⟩)⟩

/-- A pass is cancelled exactly if the token is set at the check before some candidate. -/
theorem cancelled_iff :
    pass.outcome = .error .cancelled ↔ ∃ k < candidates.length, IsSetBefore cancelled candidates k := by
  rcases ends.cases_of_found some found with ⟨k, hk, set, -, rfl⟩ | ⟨never, -, hrest⟩
  · exact ⟨fun _ => ⟨k, hk, set⟩, fun _ => rfl⟩
  · refine ⟨fun houtcome => ?_, fun ⟨k, hk, set⟩ => absurd set (never k hk)⟩
    rcases hrest with ⟨-, h⟩ | ⟨-, -, _, _, _, h⟩ | ⟨-, -, h⟩ <;> rw [h] at houtcome <;> cases houtcome

/-- The candidates before the first one that sees the token set are the ones that are synthesized. -/
theorem asked_of_first {k : Nat} (hk : k < candidates.length) (set : IsSetBefore cancelled candidates k)
    (first : ∀ i < k, ¬IsSetBefore cancelled candidates i) :
    pass.asked = (candidates.take k).map (·.decl) := by
  rcases ends.cases_of_found some found with ⟨k', hk', set', first', rfl⟩ | ⟨never, -⟩
  · have hle : ¬k < k' := fun hlt => first' k hlt set
    have hge : ¬k' < k := fun hlt => first k' hlt set'
    obtain rfl : k = k' := by omega
    rfl
  · exact absurd set (never k hk)

variable (never : ∀ k < candidates.length, ¬IsSetBefore cancelled candidates k)
include never

/-- A pass that is not cancelled takes all candidates, and reports errors exactly if there are some. -/
theorem synthesis_iff (errors : List ClassError) :
    pass.outcome = .error (.synthesis errors) ↔
      errors = m.failures types candidates ∧ m.failures types candidates ≠ [] := by
  rcases ends.cases_of_found some found with ⟨k, hk, set, -⟩ | ⟨-, -, hrest⟩
  · exact absurd set (never k hk)
  · rcases hrest with ⟨hsome, h⟩ | ⟨clean, -, _, _, _, h⟩ | ⟨clean, -, h⟩
    · simp [h, hsome, eq_comm]
    · simp [h, clean]
    · simp [h, clean]

/-- A pass without errors makes artifacts, unless two of them have the same name. -/
theorem of_clean (clean : m.failures types candidates = []) :
    (((m.classes types candidates).map (·.hint config)).Nodup →
      pass.outcome = .ok ⟨.completed (m.classes types candidates).length,
        (m.classes types candidates).map (·.artifact config)⟩) ∧
    (¬((m.classes types candidates).map (·.hint config)).Nodup →
      ∃ hint first second, pass.outcome = .error (.nameCollision hint first second)) := by
  rcases ends.cases_of_found some found with ⟨k, hk, set, -⟩ | ⟨-, -, hrest⟩
  · exact absurd set (never k hk)
  · rcases hrest with ⟨hsome, -⟩ | ⟨-, repeated, h⟩ | ⟨-, nodup, h⟩
    · exact absurd clean hsome
    · exact ⟨fun nodup => absurd nodup repeated, fun _ => h⟩
    · exact ⟨fun _ => h, fun repeated => absurd nodup repeated⟩

end

end Ends

/-- The artifacts of classes are those that the settings ask for the types of their candidates. -/
theorem forall₂_artifacts {types : WellKnownTypes} {candidates : List Candidate}
    (found : m.wellKnown config = .ok types) (clean : m.failures types candidates = []) :
    List.Forall₂ (fun c a => ∃ key, m.declaredType? c.decl = some key ∧ m.IsArtifactOf config key a)
      (candidates.filter fun c => m.Known c) ((m.classes types candidates).map (·.artifact config)) := by
  rw [List.forall₂_map_right_iff]
  refine (SourceModel.forall₂_classes clean).imp fun c result hresult => ?_
  obtain ⟨key, e, hkey, he, hsynthesized⟩ := SourceModel.synthesize_eq_ok_some_iff.1 hresult
  exact ⟨key, hkey, types, e, result, found, he, hsynthesized, rfl⟩

/-- Texts that are there already get artifacts only from a pass that completes. -/
theorem runInto_eq (config : GeneratorConfig) (m : SourceModel) (cancelled : Cancellation)
    (sources : GeneratedSources) :
    (runInto config m cancelled sources).1 = (run config m cancelled).outcome.map (·.status) ∧
    (∀ count list, (run config m cancelled).outcome = .ok ⟨.completed count, list⟩ →
      (runInto config m cancelled sources).2 = sources.add list) ∧
    ((∀ count, (runInto config m cancelled sources).1 ≠ .ok (.completed count)) →
      (runInto config m cancelled sources).2 = sources) := by
  have ends := ends_run config m cancelled
  unfold runInto
  generalize run config m cancelled = pass at ends ⊢
  -- only an end with a count has artifacts to add
  cases ends with
  | noCandidates | noRepository => exact ⟨rfl, fun _ _ h => (by cases h), fun _ => rfl⟩
  | cancelled | failed | collided => exact ⟨rfl, fun _ _ h => (by cases h), fun _ => rfl⟩
  | completed =>
      refine ⟨rfl, fun count list h => ?_, fun h => absurd rfl (h _)⟩
      cases h
      rfl

/-- How a pass ends, whenever it is cancelled, on any host where the walk outwards from the type of each
candidate ends.  It says that there are no candidates exactly if there are none; else that a type is missing
exactly if the repository type is, and then it has found the marker and makes nothing; else it is cancelled
exactly if the token is set at the check before some candidate, and then the candidates before the first
such one have been taken; else it reports errors exactly if some candidates fail, and then those of all that
fail, in order; else, unless two names are the same, it makes one artifact for each candidate whose type is
known, in order, and counts them.  The class of a candidate has the headers of all types around its type.
Texts that are there already stay as they are, unless a pass completes. -/
theorem outcome_exact (config : GeneratorConfig) (m : SourceModel) (cancelled : Cancellation)
    (sources : GeneratedSources) (ends : ∀ c ∈ m.candidates config.marker m.scan, m.EndsAround c) :
    let candidates := m.candidates config.marker m.scan
    let pass := run config m cancelled
    ((∃ list, pass.outcome = .ok ⟨.noCandidates, list⟩) ↔ candidates = []) ∧
    (candidates ≠ [] →
      ((∃ missing list, pass.outcome = .ok ⟨.missingTypes missing, list⟩) ↔
        m.lookup? config.repository = none) ∧
      (∀ missing list, pass.outcome = .ok ⟨.missingTypes missing, list⟩ →
        missing = ⟨true, false⟩ ∧ list = []) ∧
      ∀ repository, m.lookup? config.repository = some repository →
        ∃ marker, m.lookup? config.marker = some marker ∧
        let types : WellKnownTypes := ⟨marker, repository⟩
        (∀ c ∈ candidates, ∀ result, m.synthesize types c = .ok (some result) →
          ∃ key e, m.declaredType? c.decl = some key ∧ m.entry? key = some e ∧
            m.Around e result.containers) ∧
        (pass.outcome = .error .cancelled ↔
          ∃ k < candidates.length, IsSetBefore cancelled candidates k) ∧
        (∀ k < candidates.length, IsSetBefore cancelled candidates k →
          (∀ i < k, ¬IsSetBefore cancelled candidates i) →
          pass.asked = (candidates.take k).map (·.decl)) ∧
        ((∀ k < candidates.length, ¬IsSetBefore cancelled candidates k) →
          ((∃ errors, pass.outcome = .error (.synthesis errors)) ↔
            ∃ c ∈ candidates, ∃ e, m.synthesize types c = .error e) ∧
          (∀ errors, pass.outcome = .error (.synthesis errors) →
            errors = m.failures types candidates) ∧
          ((∀ c ∈ candidates, ∀ e, m.synthesize types c ≠ .error e) →
            (¬((m.classes types candidates).map (·.hint config)).Nodup →
              ∃ hint first second, pass.outcome = .error (.nameCollision hint first second)) ∧
            (((m.classes types candidates).map (·.hint config)).Nodup →
              ∃ artifacts, pass.outcome = .ok ⟨.completed artifacts.length, artifacts⟩ ∧
                List.Forall₂
                  (fun c a => ∃ key, m.declaredType? c.decl = some key ∧ m.IsArtifactOf config key a)
                  (candidates.filter fun c => m.Known c) artifacts)))) ∧
    (runInto config m cancelled sources).1 = pass.outcome.map (·.status) ∧
    (∀ count list, pass.outcome = .ok ⟨.completed count, list⟩ →
      (runInto config m cancelled sources).2 = sources.add list) ∧
    ((∀ count, (runInto config m cancelled sources).1 ≠ .ok (.completed count)) →
      (runInto config m cancelled sources).2 = sources) := by
  intro candidates pass
  have outcome : Ends config m cancelled candidates pass := ends_run config m cancelled
  refine ⟨outcome.noCandidates_iff, fun some => ?_, runInto_eq config m cancelled sources⟩
  refine ⟨outcome.missingTypes_iff some, fun _ _ => outcome.missing_eq, fun repository hrepository => ?_⟩
  obtain ⟨marker, hmarker⟩ := SourceModel.lookup?_of_candidates some
  have found : m.wellKnown config = .ok ⟨marker, repository⟩ := by
    rw [SourceModel.wellKnown_eq hmarker, hrepository]
  refine ⟨marker, hmarker, fun c hc result => (ends c hc).of_synthesize, outcome.cancelled_iff some found,
    fun k => outcome.asked_of_first some found, fun never => ?_⟩
  have errors := outcome.synthesis_iff some found never
  refine ⟨?_, fun list h => ((errors list).1 h).1, fun sound => ?_⟩
  · rw [← SourceModel.failures_ne_nil_iff]
    exact ⟨fun ⟨list, h⟩ => ((errors list).1 h).2, fun h => ⟨_, (errors _).2 ⟨rfl, h⟩⟩⟩
  · have clean : m.failures ⟨marker, repository⟩ candidates = [] := by
      by_contra some
      obtain ⟨c, hc, e, he⟩ := SourceModel.failures_ne_nil_iff.1 some
      exact sound c hc e he
    obtain ⟨hnodup, hrepeated⟩ := outcome.of_clean some found never clean
    refine ⟨hrepeated, fun nodup => ⟨_, ?_, forall₂_artifacts found clean⟩⟩
    rw [hnodup nodup, List.length_map]

/-! ### A sample pass -/

/-- Three marked classes, of which the second one asks for a property that is not there. -/
def failingSecond : List Document :=
  [⟨"a.cs", "class M\x7b\x7dclass R\x7bint P=>1;\x7d[M(\"P\")]partial class A\x7b\x7d" ++
      "[M(\"Q\")]partial class B\x7b\x7d[M(\"P\")]partial class C\x7b\x7d", .source⟩]

/-- A token that is set when the type of the second marked class is asked for. -/
def setAtSecond : Cancellation := fun asked => asked.contains ⟨⟨0⟩, 3⟩

/-- The declarations of the candidates among documents that can be compiled, and whether the repository
type is among them. -/
def candidateIds? (config : GeneratorConfig) (documents : List Document) : Option (List DeclId × Bool) :=
  (Compilation.build documents).toOption.map fun c =>
    ((c.model.candidates config.marker c.model.scan).map (·.decl),
      (c.model.lookup? config.repository).isSome)

theorem of_candidateIds?_eq_some {documents : List Document} {ids : List DeclId}
    (h : candidateIds? config documents = some (ids, true)) :
    ∃ c repository, Compilation.build documents = .ok c ∧
      (c.model.candidates config.marker c.model.scan).map (·.decl) = ids ∧
      c.model.lookup? config.repository = some repository := by
  unfold candidateIds? at h
  cases hbuild : Compilation.build documents with
  | error e =>
      rw [hbuild] at h
      cases h
  | ok c =>
      rw [hbuild] at h
      obtain ⟨hids, hsome⟩ := Prod.mk.inj (Option.some.inj h)
      obtain ⟨repository, hrepository⟩ := Option.isSome_iff_exists.1 hsome
      exact ⟨c, repository, rfl, hids, hrepository⟩

/-- The pass ends before the third class.  That the second one fails is not reported any more. -/
theorem outcome_exact_failingSecond :
    ∃ c, Compilation.build failingSecond = .ok c ∧
      (run Compilation.sampleSettings c.model setAtSecond).outcome = .error .cancelled ∧
      (run Compilation.sampleSettings c.model setAtSecond).asked = [⟨⟨0⟩, 2⟩, ⟨⟨0⟩, 3⟩] := by
  obtain ⟨c, repository, built, hids, hrepository⟩ := of_candidateIds?_eq_some
    (show candidateIds? Compilation.sampleSettings failingSecond =
      some ([⟨⟨0⟩, 2⟩, ⟨⟨0⟩, 3⟩, ⟨⟨0⟩, 4⟩], true) by decide +kernel)
  obtain ⟨-, h, -⟩ := outcome_exact Compilation.sampleSettings c.model setAtSecond .empty
    fun c _ => (Compilation.contained_of_build built).endsAround c
  generalize c.model.candidates Compilation.sampleSettings.marker c.model.scan = candidates at h hids
  have length : candidates.length = 3 := by simpa using congrArg List.length hids
  have taken : ∀ k, (candidates.take k).map (·.decl) = [⟨⟨0⟩, 2⟩, ⟨⟨0⟩, 3⟩, ⟨⟨0⟩, 4⟩].take k := by
    intro k
    rw [List.map_take, hids]
  have some : candidates ≠ [] := by
    rintro rfl
    cases length
  obtain ⟨marker, -, -, hcancelled, hasked, -⟩ := (h some).2.2 repository hrepository
  have set : IsSetBefore setAtSecond candidates 2 := by
    rw [IsSetBefore, taken]
    decide
  have first : ∀ i < 2, ¬IsSetBefore setAtSecond candidates i := by
    intro i hi
    rw [IsSetBefore, taken]
    revert i
    decide
  refine ⟨c, built, hcancelled.2 ⟨2, by omega, set⟩, ?_⟩
  rw [hasked 2 (by omega) set first, taken]
  rfl

end Pass

end Graft
