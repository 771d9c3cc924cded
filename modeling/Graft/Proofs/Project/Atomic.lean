/-
Module: Graft.Proofs.Project.Atomic
Purpose: What an operation on a project leaves as it was when it fails.
Main exports: Project.Step.on_insert, Project.Step.on_update, Project.Step.on_remove,
  Project.Step.on_build, Project.Step.on_generate, Project.Moves, Project.Reachable,
  Pass.hints_nodup, Project.kept_of_failure

The operations change a project field after field, so a failure could leave half of a change behind.
In a project with a sound index none does, and every project that operations lead to has one.  Then
the operations, as they run, are the functions that give back a whole project or an error.
-/
import Graft.Project.Steps
import Graft.Proofs.Project.History
import Graft.Proofs.Generator.Outcomes

namespace Graft

namespace Project

variable {α : Type}

/-- What an operation answers and what it leaves: if it fails, the project as it was. -/
def settle (p : Project) : Except ProjectError (α × Project) → Except ProjectError α × Project
  | .ok (answer, q) => (.ok answer, q)
  | .error e => (.error e, p)

/-- What is left is what the request leaves. -/
theorem settle_snd (p : Project) (result : Except ProjectError (α × Project)) :
    (p.settle result).2 = p.orElse result := by
  cases result <;> rfl

/-- A name that no file has is at no place. -/
theorem Indexed.places_of_absent {p : Project} (indexed : p.Indexed) {name : String}
    (absent : ∀ d ∈ p.files, d.name ≠ name) : p.places.get? name = none := by
  cases hplace : p.places.get? name with
  | none => rfl
  | some place =>
      obtain ⟨d, hd, hname⟩ := Option.map_eq_some_iff.1 ((indexed.places name place).1 hplace)
      exact absurd hname (absent d (List.mem_of_getElem? hd))

namespace Step

variable {p : Project}

/-- A file is added field after field. -/
theorem on_insert (indexed : p.Indexed) (d : Document) :
    on (insert d) p = some (p.settle (p.add d)) := by
  rw [insert, on_get_bind]
  by_cases hfile : ∃ e ∈ p.files, e.name = d.name
  · obtain ⟨e, he, hname⟩ := hfile
    obtain ⟨place, hplace⟩ := List.mem_iff_getElem?.1 he
    have hplaces : p.places.get? d.name = some place :=
      (indexed.places d.name place).2 (by rw [hplace, ← hname]; rfl)
    rw [add_of_file indexed hplace hname, hplaces]
    dsimp only
    rw [on_fileAt_bind _ _ hplace]
    by_cases horigin : e.origin = d.origin
    · rw [if_neg (not_not.2 horigin), if_neg (not_not.2 horigin), on_get_bind]
      by_cases hdigest : p.digests.get? d.name = some (Digest.ofString d.text)
      · rw [if_pos hdigest, if_pos hdigest]
        rfl
      · rw [if_neg hdigest, if_neg hdigest]
        rfl
    · rw [if_pos horigin, if_pos horigin]
      rfl
  · have absent : ∀ e ∈ p.files, e.name ≠ d.name := fun e he hname => hfile ⟨e, he, hname⟩
    rw [add_of_absent indexed absent, indexed.places_of_absent absent]
    rfl

/-- A file gets a new text field after field. -/
theorem on_update (indexed : p.Indexed) (name text : String) :
    on (update name text) p = some (p.settle (p.update name text)) := by
  rw [update, on_get_bind]
  by_cases hfile : ∃ e ∈ p.files, e.name = name
  · obtain ⟨e, he, rfl⟩ := hfile
    obtain ⟨place, hplace⟩ := List.mem_iff_getElem?.1 he
    have hplaces : p.places.get? e.name = some place :=
      (indexed.places e.name place).2 (by rw [hplace]; rfl)
    rw [update_of_file indexed hplace rfl, hplaces]
    dsimp only
    rw [on_fileAt_bind _ _ hplace]
    exact on_insert indexed _
  · have absent : ∀ e ∈ p.files, e.name ≠ name := fun e he hname => hfile ⟨e, he, hname⟩
    rw [update_of_absent indexed absent, indexed.places_of_absent absent]
    rfl

/-- A file is removed field after field. -/
theorem on_remove (indexed : p.Indexed) (name : String) :
    on (remove name) p = some (.ok (p.remove name).1, (p.remove name).2) := by
  rw [remove, on_get_bind, Project.remove]
  cases hplace : p.places.get? name with
  | none => rfl
  | some place =>
      obtain ⟨d, hd, -⟩ := Option.map_eq_some_iff.1 ((indexed.places name place).1 hplace)
      dsimp only
      rw [on_modify_bind]
      exact on_fileAt_bind _ { p with places := p.places.erase name } hd

/-- The files are compiled again field after field. -/
theorem on_recompile (p : Project) : on recompile p = some (p.settle p.recompile) := by
  rw [recompile, on_get_bind, Project.recompile]
  cases Compilation.build p.files with
  | error cause => rfl
  | ok c => rfl

/-- The files are compiled as far as needed field after field. -/
theorem on_build (p : Project) : on build p = some (p.settle p.build) := by
  rw [build, on_get_bind, Project.build]
  by_cases hfiles : p.files.isEmpty
  · rw [if_pos hfiles, if_pos hfiles]
    rfl
  · rw [if_neg hfiles, if_neg hfiles]
    cases p.compilation? with
    | none => exact on_recompile p
    | some c =>
        dsimp only
        by_cases hpending : p.isPending
        · rw [if_pos hpending, if_pos hpending]
          exact on_recompile p
        · rw [if_neg hpending, if_neg hpending]
          rfl

/-- A pass runs on what was last compiled, and its artifacts alone are what is generated. -/
theorem on_pass (cancelled : Cancellation) {c : Compilation} (compiled : p.compilation? = some c) :
    on (pass cancelled) p =
      some (match (Pass.run p.config c.model cancelled).outcome with
        | .error e => (.error (.generation e), p)
        | .ok output =>
            (.ok output.status,
              { p with generated := GeneratedSources.add .empty output.artifacts })) := by
  rw [pass, on_get_bind]
  split
  · rename_i hnone
    rw [compiled] at hnone
    cases hnone
  · rename_i d hd
    obtain rfl : c = d := Option.some.inj (compiled.symm.trans hd)
    rw [on_get_bind]
    cases (Pass.run p.config c.model cancelled).outcome with
    | error e => rfl
    | ok output => rfl

/-- A pass runs on what is built. -/
theorem on_generate (cancelled : Cancellation) (p : Project) :
    (∃ e, p.build = .error e ∧ on (generate cancelled) p = some (.error e, p)) ∨
    ∃ c q, p.build = .ok (c, q) ∧ on (generate cancelled) p = on (pass cancelled) q := by
  rw [generate, on_bind, on_build]
  cases p.build with
  | error e => exact .inl ⟨e, rfl, rfl⟩
  | ok built => exact .inr ⟨built.1, built.2, rfl, rfl⟩

/-- A pass that no one cancels while it runs is the pass of the project. -/
theorem on_generate_cancelled (p : Project) : on (generate fun _ => p.cancelled) p = some p.generate := by
  rcases on_generate (fun _ => p.cancelled) p with ⟨e, hbuild, hon⟩ | ⟨c, q, hbuild, hon⟩
  · rw [hon, Project.generate, hbuild]
  · have hq := build_frame hbuild
    have compiled : q.compilation? = some c := by rw [hq]
    have hcancelled : q.cancelled = p.cancelled := by rw [hq]
    rw [hon, on_pass _ compiled, Project.generate, hbuild]
    dsimp only
    have hrun : Pass.run q.config c.model (fun _ => q.cancelled) = Pass.run q.config c.model fun _ =>
        p.cancelled := by
      rw [hcancelled]
    cases hout : (Pass.run q.config c.model fun _ => p.cancelled).outcome with
    | error e => simp only [hrun, hout]
    | ok output => simp only [hrun, hout]

end Step

/-! ### Projects that operations lead to -/

/-- An operation takes one project to another.  A pass may be cancelled from outside whenever it asks. -/
inductive Moves : Project → Project → Prop
  | insert {p q : Project} {answer : Except ProjectError Bool} (d : Document)
      (on : Step.on (.insert d) p = some (answer, q)) : Moves p q
  | update {p q : Project} {answer : Except ProjectError Bool} (name text : String)
      (on : Step.on (.update name text) p = some (answer, q)) : Moves p q
  | remove {p q : Project} {answer : Except ProjectError Bool} (name : String)
      (on : Step.on (.remove name) p = some (answer, q)) : Moves p q
  | build {p q : Project} {answer : Except ProjectError Compilation}
      (on : Step.on .build p = some (answer, q)) : Moves p q
  | generate {p q : Project} {answer : Except ProjectError PassStatus} (cancelled : Cancellation)
      (on : Step.on (.generate cancelled) p = some (answer, q)) : Moves p q
  | cancel (p : Project) : Moves p p.cancel

/-- A project that operations lead to from the one without files. -/
inductive Reachable (config : GeneratorConfig) : Project → Prop
  | empty : Reachable config (empty config)
  | move {p q : Project} (reachable : Reachable config p) (moves : Moves p q) : Reachable config q

/-- Every operation keeps consistency. -/
theorem Consistent.of_moves {p q : Project} (consistent : p.Consistent) (moves : Moves p q) :
    q.Consistent := by
  have indexed := consistent.indexed
  cases moves with
  | insert d on =>
      rw [Step.on_insert indexed, Option.some.injEq] at on
      have hadd := consistent.add d
      rw [← settle_snd, on] at hadd
      exact hadd
  | update name text on =>
      rw [Step.on_update indexed, Option.some.injEq] at on
      have hupdate := consistent.update name text
      rw [← settle_snd, on] at hupdate
      exact hupdate
  | remove name on =>
      rw [Step.on_remove indexed, Option.some.injEq] at on
      have hremove := consistent.remove name
      rw [(Prod.mk.inj on).2] at hremove
      exact hremove
  | build on =>
      rw [Step.on_build, Option.some.injEq] at on
      have hbuild := consistent.build
      rw [← settle_snd, on] at hbuild
      exact hbuild
  | generate cancelled on =>
      rcases Step.on_generate cancelled p with ⟨e, -, hon⟩ | ⟨c, r, hbuild, hon⟩
      · rw [hon] at on
        cases on
        exact consistent
      · have hr : r.Consistent := by
          have hconsistent := consistent.build
          rw [hbuild] at hconsistent
          exact hconsistent
        have compiled : r.compilation? = some c := by rw [build_frame hbuild]
        rw [hon, Step.on_pass cancelled compiled, Option.some.injEq] at on
        split at on
        · cases on
          exact hr
        · cases on
          exact ⟨hr.indexed.of_eq rfl rfl, hr.digests, hr.compiled⟩
  | cancel => exact consistent.withCancelled true

/-- Every project that operations lead to is consistent. -/
theorem Reachable.consistent {config : GeneratorConfig} {p : Project} (reachable : Reachable config p) :
    p.Consistent := by
  induction reachable with
  | empty => exact consistent_empty config
  | move _ moves ih => exact ih.of_moves moves

/-- Requests are operations. -/
theorem moves_after {p : Project} (consistent : p.Consistent) (request : Request) :
    Moves p (p.after request) := by
  have indexed := consistent.indexed
  cases request with
  | add d => exact .insert d (by rw [Step.on_insert indexed, after, ← settle_snd])
  | update name text => exact .update name text (by rw [Step.on_update indexed, after, ← settle_snd])
  | remove name => exact .remove name (Step.on_remove indexed name)
  | build => exact .build (by rw [Step.on_build, after, ← settle_snd])
  | generate => exact .generate (fun _ => p.cancelled) (Step.on_generate_cancelled p)
  | cancel => exact .cancel p

/-- Requests lead to projects that operations lead to. -/
theorem Reachable.afterAll {config : GeneratorConfig} {p : Project} (reachable : Reachable config p)
    (requests : List Request) : Reachable config (p.afterAll requests) := by
  induction requests generalizing p with
  | nil => exact reachable
  | cons request rest ih => exact ih (reachable.move (moves_after reachable.consistent request))

end Project

/-! ### What is generated -/

/-- Artifacts with names of their own are all added, in their order. -/
theorem GeneratedSources.entries_add {sources : GeneratedSources} {artifacts : List Artifact}
    (nodup : (sources.keys ++ artifacts.map (·.hint)).Nodup) :
    (GeneratedSources.add sources artifacts).entries =
      sources.entries ++ artifacts.map fun a => (a.hint, a.text) := by
  induction artifacts generalizing sources with
  | nil => exact (List.append_nil _).symm
  | cons a rest ih =>
      have new : a.hint ∉ sources.keys := fun hmem =>
        (List.nodup_append.1 nodup).2.2 a.hint hmem a.hint (List.mem_map_of_mem List.mem_cons_self) rfl
      have hentries := Assoc.entries_insert_of_not_mem new a.text
      have hkeys : (sources.insert a.hint a.text).keys = sources.keys ++ [a.hint] := by
        rw [Assoc.keys, hentries, List.map_append]
        rfl
      change (GeneratedSources.add (sources.insert a.hint a.text) rest).entries = _
      rw [ih ?_, hentries, List.append_assoc]
      · rfl
      · rw [hkeys, List.append_assoc]
        exact nodup

/-- No two artifacts of a pass have one name. -/
theorem Pass.hints_nodup {config : GeneratorConfig} {m : SourceModel} {cancelled : Cancellation}
    {output : PassOutput} (h : (Pass.run config m cancelled).outcome = .ok output) :
    (output.artifacts.map (·.hint)).Nodup := by
  have ends := Pass.ends_run config m cancelled
  generalize Pass.run config m cancelled = pass at ends h
  cases ends with
  | noCandidates | noRepository =>
      cases h
      exact List.nodup_nil
  | cancelled | failed | collided => cases h
  | completed _ _ _ _ nodup =>
      cases h
      rw [List.map_map]
      exact nodup

/-! ### Failures -/

namespace Project

section

variable {p q : Project}

/-- A project that answers an operation by `false` is the same one. -/
theorem settle_of_ne_true {result : Except ProjectError (Bool × Project)}
    (same : ∀ q, result = .ok (false, q) → q = p) (h : (p.settle result).1 ≠ .ok true) :
    (p.settle result).2 = p := by
  cases result with
  | error e => rfl
  | ok answered =>
      obtain ⟨changed, q⟩ := answered
      cases changed with
      | false => exact same q rfl
      | true => exact absurd rfl h

/-- Where nothing is added, the project is the same one. -/
theorem eq_of_add_eq_false {d : Document} (h : p.add d = .ok (false, q)) : q = p := by
  rw [add] at h
  split at h
  · cases h
  · split at h
    · cases h
    · split at h
      · cases h
        rfl
      · cases h

/-- Where nothing gets a new text, the project is the same one. -/
theorem eq_of_update_eq_false {name text : String} (h : p.update name text = .ok (false, q)) : q = p := by
  rw [update] at h
  split at h
  · cases h
  · exact eq_of_add_eq_false h

/-- Where nothing is removed, the project is the same one. -/
theorem remove_of_eq_false {name : String} (h : (p.remove name).1 = false) : (p.remove name).2 = p := by
  rw [remove] at h ⊢
  split
  · rfl
  · rename_i place hplace
    rw [hplace] at h
    cases h

/-- What a build answers is compiled from the files. -/
theorem Consistent.compiled_of_build {c : Compilation} (consistent : p.Consistent)
    (built : p.build = .ok (c, q)) : Compilation.build p.files = .ok c := by
  have hbuild := consistent.build
  rw [built, build_frame built] at hbuild
  exact hbuild.compiled rfl c rfl

/-- A pass that fails leaves all but what is compiled, and one that succeeds leaves its artifacts. -/
theorem Consistent.generate_cases (consistent : p.Consistent) (cancelled : Cancellation) :
    (∃ e, Step.on (.generate cancelled) p = some (.error e, p)) ∨
    ∃ c q, Compilation.build p.files = .ok c ∧ q = { p with dirty := [], compilation? := some c } ∧
      ((∃ e, Step.on (.generate cancelled) p = some (.error (.generation e), q)) ∨
      ∃ output, (Pass.run p.config c.model cancelled).outcome = .ok output ∧
        Step.on (.generate cancelled) p = some (.ok output.status,
          { q with generated := GeneratedSources.add .empty output.artifacts })) := by
  rcases Step.on_generate cancelled p with ⟨e, -, hon⟩ | ⟨c, q, hbuild, hon⟩
  · exact .inl ⟨e, hon⟩
  · have hq := build_frame hbuild
    have compiled : q.compilation? = some c := by rw [hq]
    have hconfig : q.config = p.config := by rw [hq]
    refine .inr ⟨c, q, consistent.compiled_of_build hbuild, hq, ?_⟩
    rw [hon, Step.on_pass cancelled compiled, hconfig]
    cases (Pass.run p.config c.model cancelled).outcome with
    | error e => exact .inl ⟨e, rfl⟩
    | ok output => exact .inr ⟨output, rfl, rfl⟩

end

/-- An operation that fails, or answers that it changes nothing, leaves the project as it was; but of a
pass that fails, what was compiled for it stays.  A pass that succeeds leaves its artifacts, all of them
and nothing else.  No operation is without an answer. -/
theorem kept_of_failure {config : GeneratorConfig} {p : Project} (reachable : Reachable config p) :
    (∀ d, ∃ answer q, Step.on (.insert d) p = some (answer, q) ∧ (answer ≠ .ok true → q = p)) ∧
    (∀ name text, ∃ answer q, Step.on (.update name text) p = some (answer, q) ∧
      (answer ≠ .ok true → q = p)) ∧
    (∀ name, ∃ found q, Step.on (.remove name) p = some (.ok found, q) ∧ (found = false → q = p)) ∧
    (∃ answer q, Step.on .build p = some (answer, q) ∧ ∀ e, answer = .error e → q = p) ∧
    ∀ cancelled, ∃ answer q, Step.on (.generate cancelled) p = some (answer, q) ∧
      (∀ e, answer = .error e →
        q = { p with dirty := q.dirty, compilation? := q.compilation? } ∧
        ((∀ cause, e ≠ .generation cause) → q = p)) ∧
      ∀ status, answer = .ok status → ∃ c artifacts,
        Compilation.build p.files = .ok c ∧
        (Pass.run p.config c.model cancelled).outcome = .ok ⟨status, artifacts⟩ ∧
        (artifacts.map (·.hint)).Nodup ∧
        q.generated.entries = artifacts.map fun a => (a.hint, a.text) := by
  have consistent := reachable.consistent
  have indexed := consistent.indexed
  refine ⟨fun d => ?_, fun name text => ?_, fun name => ?_, ?_, fun cancelled => ?_⟩
  · exact ⟨_, _, Step.on_insert indexed d, settle_of_ne_true fun _ => eq_of_add_eq_false⟩
  · exact ⟨_, _, Step.on_update indexed name text, settle_of_ne_true fun _ => eq_of_update_eq_false⟩
  · exact ⟨_, _, Step.on_remove indexed name, remove_of_eq_false⟩
  · refine ⟨_, _, Step.on_build p, fun e h => ?_⟩
    cases hbuild : p.build with
    | error cause => rfl
    | ok built =>
        rw [hbuild] at h
        cases h
  · rcases consistent.generate_cases cancelled with
      ⟨e, hon⟩ | ⟨c, q, hcompiled, hq, ⟨e, hon⟩ | ⟨output, houtcome, hon⟩⟩
    · exact ⟨_, _, hon, fun _ _ => ⟨rfl, fun _ => rfl⟩, fun _ h => (by cases h)⟩
    · refine ⟨_, _, hon, fun cause h => ⟨by rw [hq], fun other => ?_⟩, fun _ h => (by cases h)⟩
      cases h
      exact absurd rfl (other e)
    · refine ⟨_, _, hon, fun _ h => (by cases h), fun status h => ?_⟩
      cases h
      have nodup := Pass.hints_nodup houtcome
      refine ⟨c, output.artifacts, hcompiled, houtcome, nodup, ?_⟩
      exact GeneratedSources.entries_add (by simpa [Assoc.keys, Assoc.empty] using nodup)

/-- Requests after which the marked class asks for a property that is not there, and a pass before. -/
def spoiledRequests : List Request :=
  [.add ⟨"r.cs", "class M\x7b\x7dclass R\x7bint P=>1;\x7d", .source⟩,
    .add ⟨"a.cs", "[M(\"P\")]partial class A\x7b\x7d", .source⟩, .generate,
    .update "a.cs" "[M(\"Q\")]partial class A\x7b\x7d"]

/-- The project after these requests. -/
def spoiled : Project := (empty Compilation.sampleSettings).afterAll spoiledRequests

/-- An operation fails. -/
def fails {α : Type} : Option (Except ProjectError α × Project) → Bool
  | some (.error _, _) => true
  | _ => false

/-- A pass that fails leaves the files and what the pass before it has generated. -/
theorem kept_of_failure_spoiled :
    ∃ e q, Step.on (.generate fun _ => false) spoiled = some (.error e, q) ∧
      q.files = spoiled.files ∧ q.generated.keys = ["A.g.cs"] := by
  have reachable : Reachable Compilation.sampleSettings spoiled := Reachable.empty.afterAll spoiledRequests
  obtain ⟨-, -, -, -, h⟩ := kept_of_failure reachable
  obtain ⟨answer, q, hon, hfailed, -⟩ := h fun _ => false
  have hfails : fails (Step.on (.generate fun _ => false) spoiled) = true := by decide +kernel
  rw [hon] at hfails
  cases answer with
  | ok status => cases hfails
  | error e =>
      have hq := (hfailed e rfl).1
      have hkeys : spoiled.generated.keys = ["A.g.cs"] := by decide +kernel
      exact ⟨e, q, hon, by rw [hq], by rw [hq, hkeys]⟩

end Project

end Graft
