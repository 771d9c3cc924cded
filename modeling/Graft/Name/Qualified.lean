/-
Module: Graft.Name.Qualified
Purpose: Names of types with the names of what they stand in.
Main exports: QualifiedName, QualifiedName.ofString, QualifiedName.display
-/

namespace Graft

/-- A simple name and the path of the namespaces, or of the namespaces and types, it stands in. -/
structure QualifiedName where
  name : String
  path : List String
deriving DecidableEq, Repr, Inhabited

namespace QualifiedName

/-- The segments of a text between characters that satisfy `isSeparator`. -/
def splitText (isSeparator : Char → Bool) : List Char → List (List Char)
  | [] => [[]]
  | c :: rest =>
      if isSeparator c then [] :: splitText isSeparator rest
      else
        match splitText isSeparator rest with
        | [] => [[c]]
        | segment :: segments => (c :: segment) :: segments

/-- A name outside every namespace. -/
def global (name : String) : QualifiedName := ⟨name, []⟩

/-- A text without the mark that its name starts at the outermost namespace. -/
def withoutGlobalMark (text : String) : List Char :=
  let mark := "global::".toList
  if mark.isPrefixOf text.toList then text.toList.drop mark.length else text.toList

/-- The name that a text spells. Segments are separated by `.` or, before nested types, by `+`;
empty segments and a leading `global::` are dropped. -/
def ofString (text : String) : QualifiedName :=
  let segments := (splitText (fun c => c = '.' || c = '+') (withoutGlobalMark text)).filter (· ≠ [])
  match (segments.map String.ofList).reverse with
  | [] => global ""
  | name :: outer => ⟨name, outer.reverse⟩

/-- The name stands in no namespace. -/
def isGlobal (n : QualifiedName) : Bool := n.path.isEmpty

/-- Path and name, outermost first. -/
def segments (n : QualifiedName) : List String := n.path ++ [n.name]

/-- The path with points between its segments. -/
def pathText (n : QualifiedName) : String := ".".intercalate n.path

/-- The whole name with points between its segments. -/
def display (n : QualifiedName) : String :=
  if n.path.isEmpty then n.name else n.pathText ++ "." ++ n.name

/-- The name of something that stands in `n`. -/
def child (n : QualifiedName) (name : String) : QualifiedName := ⟨name, n.segments⟩

/-- The name of what `n` stands in. -/
def parent? (n : QualifiedName) : Option QualifiedName :=
  match n.path.reverse with
  | [] => none
  | name :: outer => some ⟨name, outer.reverse⟩

end QualifiedName

end Graft
