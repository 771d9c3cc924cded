/-
Module: Graft.Resolution
Purpose: The outcome of looking a name up in several places at once.
Main exports: Resolution, Resolution.ofMatches
-/

namespace Graft

/-- What a name stands for: one thing, several different ones, or nothing. -/
inductive Resolution (α : Type) where
  | found (value : α)
  | ambiguous (values : List α)
  | notFound
deriving DecidableEq, Repr, Inhabited

namespace Resolution

variable {α : Type}

/-- The distinct elements of a list in the order of their first occurrence, after the ones in
`kept`. -/
def distinct [DecidableEq α] (kept : List α) : List α → List α
  | [] => kept
  | x :: rest => if x ∈ kept then distinct kept rest else distinct (kept ++ [x]) rest

/-- The outcome when all of `matches` answer to a name. Repetitions do not count. -/
def ofMatches [DecidableEq α] (candidates : List α) : Resolution α :=
  match distinct [] candidates with
  | [] => .notFound
  | [only] => .found only
  | several => .ambiguous several

/-- The one thing found. -/
def toOption : Resolution α → Option α
  | found value => some value
  | _ => none

/-- The candidates of an ambiguous name. -/
def candidates? : Resolution α → Option (List α)
  | ambiguous values => some values
  | _ => none

/-- Nothing was found. -/
def isNotFound : Resolution α → Bool
  | notFound => true
  | _ => false

end Resolution

end Graft
