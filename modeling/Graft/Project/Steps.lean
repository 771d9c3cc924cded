/-
Module: Graft.Project.Steps
Purpose: The operations on a project as they change it, one field after the other.
Main exports: Project.Step, Project.Step.on, Project.Step.insert, Project.Step.update,
  Project.Step.remove, Project.Step.build, Project.Step.generate

An operation that fails leaves the project as it has made it by then.  One that reads a file at a place
where there is none has no answer at all.
-/
import Graft.Project

namespace Graft

namespace Project

/-- An operation that reads and changes a project.  It answers, fails, or has no answer. -/
abbrev Step (α : Type) := ExceptT ProjectError (StateT Project Option) α

namespace Step

variable {α β : Type}

/-- What an operation answers, and the project that it leaves. -/
def on (step : Step α) (p : Project) : Option (Except ProjectError α × Project) := step.run.run p

/-- The file at a place. -/
def fileAt (place : Nat) : Step Document := do
  match (← get).files[place]? with
  | some file => return file
  | none => ExceptT.lift (StateT.lift none)

/-- A file has a new text. -/
def noteText (d : Document) : Step Bool := do
  modify fun p => { p with digests := p.digests.insert d.name (Digest.ofString d.text) }
  modify fun p => p.touch d.name
  return true

/-- Add a file, or give the file with its name a new text. -/
def insert (d : Document) : Step Bool := do
  match (← get).places.get? d.name with
  | some place =>
      let existing ← fileAt place
      if existing.origin ≠ d.origin then throw (.kindConflict d.name existing.origin)
      else if (← get).digests.get? d.name = some (Digest.ofString d.text) then return false
      else
        modify fun p => { p with files := p.files.set place { existing with text := d.text } }
        noteText d
  | none =>
      modify fun p => { p with places := p.places.insert d.name p.files.length }
      modify fun p => { p with files := p.files ++ [d] }
      noteText d

/-- Give a file a new text. -/
def update (name text : String) : Step Bool := do
  match (← get).places.get? name with
  | none => throw (.fileNotFound name)
  | some place =>
      let existing ← fileAt place
      insert ⟨name, text, existing.origin⟩

/-- Remove a file. -/
def remove (name : String) : Step Bool := do
  match (← get).places.get? name with
  | none => return false
  | some place =>
      modify fun p => { p with places := p.places.erase name }
      let _ ← fileAt place
      modify fun p => { p with files := p.files.eraseIdx place }
      modify fun p => { p with places := p.places.mapValues (placeAfter place) }
      modify fun p => { p with digests := p.digests.erase name }
      modify fun p => p.touch name
      return true

/-- Compile the files again. -/
def recompile : Step Compilation := do
  match Compilation.build (← get).files with
  | .error cause => throw (.compilation cause)
  | .ok c =>
      modify fun p => { p with dirty := [] }
      modify fun p => { p with compilation? := some c }
      return c

/-- Compile the files if any has changed since the last time. -/
def build : Step Compilation := do
  let p ← get
  if p.files.isEmpty then throw .noSources
  else
    match p.compilation? with
    | some c => if p.isPending then recompile else return c
    | none => recompile

/-- Run the generator, which may be cancelled while it runs, on what was last compiled. -/
def pass (cancelled : Cancellation) : Step PassStatus := do
  match (← get).compilation? with
  | none => throw .noSources
  | some c =>
      match (Pass.run (← get).config c.model cancelled).outcome with
      | .error e => throw (.generation e)
      | .ok output =>
          modify fun p => { p with generated := GeneratedSources.add .empty output.artifacts }
          return output.status

/-- Compile if needed and run the generator. -/
def generate (cancelled : Cancellation) : Step PassStatus := do
  let _ ← build
  pass cancelled

/-! ### How operations run -/

/-- An operation goes on with what the first part of it answers, in the project that this leaves. -/
theorem on_bind (step : Step α) (next : α → Step β) (p : Project) :
    on (step >>= next) p =
      (on step p).bind fun
        | (.ok a, q) => on (next a) q
        | (.error e, q) => some (.error e, q) := by
  refine Option.bind_congr fun (answer, q) _ => ?_
  cases answer <;> rfl

@[simp] theorem on_get_bind (next : Project → Step β) (p : Project) :
    on (get >>= next) p = on (next p) p := rfl

@[simp] theorem on_modify_bind (f : Project → Project) (next : PUnit → Step β) (p : Project) :
    on (modify f >>= next) p = on (next ⟨⟩) (f p) := rfl

/-- A file that is there is read. -/
theorem on_fileAt_bind {place : Nat} {file : Document} (next : Document → Step β) (p : Project)
    (found : p.files[place]? = some file) : on (fileAt place >>= next) p = on (next file) p := by
  rw [on_bind]
  have hfile : on (fileAt place) p = some (.ok file, p) := by
    rw [fileAt, on_get_bind, found]
    rfl
  rw [hfile]
  rfl

end Step

end Project

end Graft
