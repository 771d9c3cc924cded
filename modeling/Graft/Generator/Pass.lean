/-
Module: Graft.Generator.Pass
Purpose: One run of the generator.
Main exports: PassStatus, PassOutput, Pass, Pass.run, Pass.runInto, Cancellation

A pass gives all of its artifacts or none.  It goes on after a class that fails, so that it reports
all of them.
-/
import Graft.Generator.Artifact

namespace Graft

/-- How a pass ends that does not fail. -/
inductive PassStatus where
  | completed (artifacts : Nat)
  | noCandidates
  | missingTypes (missing : MissingTypes)
deriving DecidableEq, Repr, Inhabited

/-- What a pass gives. -/
structure PassOutput where
  status : PassStatus
  artifacts : List Artifact
deriving DecidableEq, Repr, Inhabited

/-- Whether a pass is cancelled once the types of some declarations have been asked for. -/
abbrev Cancellation := List DeclId → Bool

/-- A pass: the declarations whose types it asked for, and how it ended. -/
structure Pass where
  asked : List DeclId
  outcome : Except GenerationError PassOutput
deriving Repr, Inhabited

/-- What came out for a class. -/
abbrev ClassResult := Except ClassError (Option SynthesizedClass)

namespace Pass

/-- The results for candidates in order; nothing if the pass is cancelled before one of them. -/
def results (m : SourceModel) (types : WellKnownTypes) (cancelled : Cancellation) :
    List DeclId → List Candidate → List DeclId × Option (List ClassResult)
  | asked, [] => (asked, some [])
  | asked, c :: rest =>
      if cancelled asked then (asked, none)
      else
        let (asked, more?) := results m types cancelled (asked ++ [c.decl]) rest
        (asked, more?.map (m.synthesize types c :: ·))

/-- The error of a class that failed. -/
def error? : ClassResult → Option ClassError
  | .error e => some e
  | .ok _ => none

/-- The class of a result. -/
def class? : ClassResult → Option SynthesizedClass
  | .ok c => c
  | .error _ => none

/-- The artifacts of all results, unless one failed or two have the same name. -/
def commit (config : GeneratorConfig) (list : List ClassResult) :
    Except GenerationError PassOutput := do
  let errors := list.filterMap error?
  if errors.isEmpty then
    let artifacts ← (list.filterMap class?).foldlM (fun staged c => stage staged (c.artifact config)) []
    return ⟨.completed artifacts.length, artifacts⟩
  else throw (.synthesis errors)

/-- Run the generator on a program. -/
def run (config : GeneratorConfig) (m : SourceModel) (cancelled : Cancellation) : Pass :=
  match m.candidates config.marker m.scan with
  | [] => ⟨[], .ok ⟨.noCandidates, []⟩⟩
  | candidates =>
      match m.wellKnown config with
      | .error missing => ⟨[], .ok ⟨.missingTypes missing, []⟩⟩
      | .ok types =>
          match results m types cancelled [] candidates with
          | (asked, none) => ⟨asked, .error .cancelled⟩
          | (asked, some list) => ⟨asked, commit config list⟩

/-- Run the generator on a program and add what it gives to texts that are there already.  A pass that
fails adds nothing. -/
def runInto (config : GeneratorConfig) (m : SourceModel) (cancelled : Cancellation)
    (sources : GeneratedSources) : Except GenerationError PassStatus × GeneratedSources :=
  match (run config m cancelled).outcome with
  | .error e => (.error e, sources)
  | .ok output => (.ok output.status, sources.add output.artifacts)

end Pass

end Graft
