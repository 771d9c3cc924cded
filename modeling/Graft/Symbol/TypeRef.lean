/-
Module: Graft.Symbol.TypeRef
Purpose: Types as they are meant, with their names resolved.
Main exports: TypeRef, TypeRef.hasUnresolved
-/
import Graft.Name.TypeKey
import Graft.Syntax.Type

namespace Graft

/-- A type in which every name stands for a definition, where it has one. -/
inductive TypeRef where
  | keyword (name : String)
  | typeParam (name : String)
  /-- A name with the type arguments of all its segments. -/
  | named (definition? : Option TypeKey) (written : String) (args : List TypeRef)
  | array (element : TypeRef) (rank : Nat)
  | nullable (inner : TypeRef)
  | pointer (inner : TypeRef)
  | tuple (elements : List (TupleElement TypeRef String))
deriving Repr, Inhabited

namespace TypeRef

/-- The definition that a name stands for. -/
def definition? : TypeRef → Option TypeKey
  | named key? _ _ => key?
  | _ => none

mutual

/-- Some name in the type stands for nothing. -/
def hasUnresolved : TypeRef → Bool
  | keyword _ | typeParam _ => false
  | named key? _ args => key?.isNone || anyUnresolved args
  | array element _ => element.hasUnresolved
  | nullable inner | pointer inner => inner.hasUnresolved
  | tuple elements => anyElementUnresolved elements

/-- Some name in some of the types stands for nothing. -/
def anyUnresolved : List TypeRef → Bool
  | [] => false
  | type :: rest => type.hasUnresolved || anyUnresolved rest

/-- Some name in some of the elements stands for nothing. -/
def anyElementUnresolved : List (TupleElement TypeRef String) → Bool
  | [] => false
  | ⟨type, _⟩ :: rest => type.hasUnresolved || anyElementUnresolved rest

end

end TypeRef

end Graft
