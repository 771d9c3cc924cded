/-
Module: Graft.Project
Purpose: The documents of a program, its last compilation, and what was last generated from it.
Main exports: Project, Project.add, Project.update, Project.remove, Project.build, Project.generate

A failure changes nothing.  Only what was compiled before a pass fails stays compiled.
-/
import Graft.Generator.Pass

namespace Graft

/-- Why an operation on a project fails. -/
inductive ProjectError where
  | noSources
  | fileNotFound (name : String)
  /-- There is a file with the name, and it is of another origin. -/
  | kindConflict (name : String) (existing : Origin)
  | compilation (cause : CompilationError)
  | generation (cause : GenerationError)
deriving DecidableEq, Repr, Inhabited

/-- What files of an origin are called. -/
def Origin.word : Origin → String
  | source => "source"
  | reference => "reference"

/-- The message of an error. -/
def ProjectError.message : ProjectError → String
  | noSources => "project has no sources"
  | fileNotFound name => s!"file not found: {name}"
  | kindConflict name existing => s!"'{name}' is already added as a {existing.word}"
  | compilation cause => cause.message
  | generation cause => cause.message

/-- A project.  Of every file its place among `files` and the digest of its text are known by its
name.  `dirty` holds the names of files that have changed since the last compilation. -/
structure Project where
  config : GeneratorConfig
  files : List Document
  places : Assoc String Nat
  digests : Assoc String UInt64
  dirty : List String
  compilation? : Option Compilation
  generated : GeneratedSources
  cancelled : Bool
deriving Repr, Inhabited

namespace Project

/-- A project without files. -/
def empty (config : GeneratorConfig) : Project :=
  ⟨config, [], .empty, .empty, [], none, .empty, false⟩

/-- The file with a name, and its place. -/
def find? (p : Project) (name : String) : Option (Nat × Document) := do
  let place ← p.places.get? name
  return (place, ← p.files[place]?)

/-- Files have changed since the last compilation. -/
def isPending (p : Project) : Bool := !p.dirty.isEmpty

/-- A file has changed. -/
def touch (p : Project) (name : String) : Project :=
  { p with dirty := if name ∈ p.dirty then p.dirty else p.dirty ++ [name] }

/-- A file has a new text. -/
def retext (p : Project) (d : Document) : Project :=
  { p with digests := p.digests.insert d.name (Digest.ofString d.text) }.touch d.name

/-- Add a file, or give the file with its name a new text.  The answer says whether that changes
anything: texts are compared by their digests. -/
def add (p : Project) (d : Document) : Except ProjectError (Bool × Project) :=
  match p.find? d.name with
  | none =>
      let files := p.files ++ [d]
      .ok (true, { p with files, places := p.places.insert d.name p.files.length }.retext d)
  | some (place, existing) =>
      if existing.origin ≠ d.origin then .error (.kindConflict d.name existing.origin)
      else if p.digests.get? d.name = some (Digest.ofString d.text) then .ok (false, p)
      else .ok (true, { p with files := p.files.set place { existing with text := d.text } }.retext d)

/-- Give a file a new text. -/
def update (p : Project) (name text : String) : Except ProjectError (Bool × Project) :=
  match p.find? name with
  | none => .error (.fileNotFound name)
  | some (_, existing) => p.add { existing with name, text }

/-- A place after the file at `removed` is gone. -/
def placeAfter (removed place : Nat) : Nat := if removed < place then place - 1 else place

/-- Remove a file.  The answer says whether there was one. -/
def remove (p : Project) (name : String) : Bool × Project :=
  match p.places.get? name with
  | none => (false, p)
  | some place =>
      (true, { p with
        files := p.files.eraseIdx place
        places := (p.places.erase name).mapValues (placeAfter place)
        digests := p.digests.erase name }.touch name)

/-- Compile the files again. -/
def recompile (p : Project) : Except ProjectError (Compilation × Project) :=
  match Compilation.build p.files with
  | .error cause => .error (.compilation cause)
  | .ok c => .ok (c, { p with dirty := [], compilation? := some c })

/-- Compile the files if any has changed since the last time. -/
def build (p : Project) : Except ProjectError (Compilation × Project) :=
  if p.files.isEmpty then .error .noSources
  else
    match p.compilation? with
    | some c => if p.isPending then p.recompile else .ok (c, p)
    | none => p.recompile

/-- Compile if needed and run the generator.  What it gives replaces what was generated before. -/
def generate (p : Project) : Except ProjectError PassStatus × Project :=
  match p.build with
  | .error e => (.error e, p)
  | .ok (c, p) =>
      match (Pass.run p.config c.model fun _ => p.cancelled).outcome with
      | .error e => (.error (.generation e), p)
      | .ok output =>
          (.ok output.status, { p with generated := GeneratedSources.add .empty output.artifacts })

/-- Cancel all passes from now on. -/
def cancel (p : Project) : Project := { p with cancelled := true }

end Project

end Graft
