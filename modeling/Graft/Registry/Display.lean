/-
Module: Graft.Registry.Display
Purpose: The texts of types that are resolved.
Main exports: Registry.displayName?, Registry.displayType, Registry.displayDefinition
-/
import Graft.Registry.Basic

namespace Graft

/-- A simple name with its type parameters. -/
def TypeEntry.header (e : TypeEntry) : String :=
  if e.typeParams.isEmpty then e.name else e.name ++ "<" ++ ", ".intercalate e.typeParams ++ ">"

namespace Registry

/-- A text with one more segment. -/
def appendSegment (text segment : String) : String :=
  if text = "" then segment else text ++ "." ++ segment

/-- The full name of a type; every type on the way has its type parameters. -/
def displayName? (r : Registry) (key : TypeKey) : Option String :=
  match (r.chain key).reverse with
  | [] => none
  | outermost :: inner =>
      some ((outermost :: inner).foldl (fun text e => appendSegment text e.header)
        (".".intercalate outermost.space))

/-- The qualified name of a definition, or what was written if there is none. -/
def displayHead (r : Registry) (definition? : Option TypeKey) (written : String) : String :=
  match definition?.bind r.get? with
  | some entry => entry.qualified.display
  | none => written

mutual

/-- The text of a type with its type arguments. -/
def displayType (r : Registry) : TypeRef → String
  | .keyword name | .typeParam name => name
  | .named definition? written [] => r.displayHead definition? written
  | .named definition? written (arg :: args) =>
      r.displayHead definition? written ++ "<" ++ displayTypes r (arg :: args) ++ ">"
  | .array element rank =>
      displayType r element ++ "[" ++ String.ofList (List.replicate (rank - 1) ',') ++ "]"
  | .nullable inner => displayType r inner ++ "?"
  | .pointer inner => displayType r inner ++ "*"
  | .tuple elements => "(" ++ displayElements r elements ++ ")"

/-- The texts of types with commas between them. -/
def displayTypes (r : Registry) : List TypeRef → String
  | [] => ""
  | [type] => displayType r type
  | type :: rest => displayType r type ++ ", " ++ displayTypes r rest

/-- The texts of the elements of a tuple with commas between them. -/
def displayElements (r : Registry) : List (TupleElement TypeRef String) → String
  | [] => ""
  | [element] => displayElement r element
  | element :: rest => displayElement r element ++ ", " ++ displayElements r rest

/-- The text of an element of a tuple. -/
def displayElement (r : Registry) : TupleElement TypeRef String → String
  | ⟨type, none⟩ => displayType r type
  | ⟨type, some name⟩ => displayType r type ++ " " ++ name

end

/-- The text of a type in which a definition stands with its own type parameters in place of type
arguments. -/
def displayDefinition (r : Registry) (type : TypeRef) : String :=
  (type.definition?.bind r.displayName?).getD (r.displayType type)

end Registry

end Graft
