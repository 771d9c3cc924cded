/-
Module: Graft.Name.Metadata
Purpose: Names that tell types of one name apart by their number of type parameters.
Main exports: MetadataName.segment, MetadataName.parse, typeIdentity
-/
import Graft.Name.Qualified

namespace Graft

namespace MetadataName

/-- A segment with the number of type parameters, which is left out if it is zero. -/
def segment (name : String) (arity : Nat) : String :=
  if arity = 0 then name else s!"{name}`{arity}"

/-- The number of type parameters that a text gives in decimal digits, perhaps after a `+`. -/
def arity? (text : List Char) : Option Nat :=
  let digits := if text.head? = some '+' then text.drop 1 else text
  if digits ≠ [] ∧ digits.all Char.isDigit then
    let value := digits.foldl (fun n c => n * 10 + (c.toNat - '0'.toNat)) 0
    if value < 1 <<< 64 then some value else none
  else none

/-- A segment as a name and, if it is given, a number of type parameters. -/
def splitArity (text : List Char) : String × Option Nat :=
  let suffix := (text.reverse.takeWhile (· ≠ '`')).reverse
  if suffix.length < text.length then
    match arity? suffix with
    | some arity => (String.ofList (text.take (text.length - suffix.length - 1)), some arity)
    | none => (String.ofList text, none)
  else (String.ofList text, none)

/-- The segments of a metadata name.  They are separated by `.` or, before nested types, by `+`. -/
def parse (text : String) : List (String × Option Nat) :=
  let segments := QualifiedName.splitText (fun c => c = '.' || c = '+')
    (QualifiedName.withoutGlobalMark text)
  (segments.filter (· ≠ [])).map splitArity

example : parse "global::A.B+C`2" = [("A", none), ("B", none), ("C", some 2)] := by decide
example : parse "A`x" = [("A`x", none)] := by decide

end MetadataName

/-- The text that identifies a type in a namespace or in another type, whose own text is `parent`. -/
def typeIdentity (parent name : String) (arity : Nat) : String :=
  if parent = "" then MetadataName.segment name arity
  else parent ++ "." ++ MetadataName.segment name arity

end Graft
