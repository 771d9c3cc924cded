/-
Module: Graft.Name.TypeKey
Purpose: The key that identifies a type by its full name.
Main exports: TypeKey, TypeKey.ofName, TypeKey.ofTypeParam
-/
import Graft.Digest
import Graft.Name.Qualified

namespace Graft

/-- A digest of a type's full name. -/
structure TypeKey where
  value : UInt64
deriving DecidableEq, Repr, Inhabited

namespace TypeKey

/-- The key that no type has. -/
def empty : TypeKey := ⟨0⟩

/-- The key of the type with a full name. -/
def ofName (name : String) : TypeKey := ⟨0x2fac10b63a6cc57c ^^^ Digest.ofString name⟩

/-- The key of a type parameter, by its owner and its place among the owner's parameters. -/
def ofTypeParam (owner : TypeKey) (place : Nat) : TypeKey :=
  ⟨0x7d3c8b4a92e15f6d ^^^ Digest.rotateLeft owner.value 17 ^^^
    Digest.ofBytes (Digest.bytesOf place.toUInt64)⟩

/-- The key is the one that no type has. -/
def isEmpty (key : TypeKey) : Bool := key == empty

/-- A key in hexadecimal. -/
def display (key : TypeKey) : String := Digest.hex key.value

/-- Keys are ordered by value. -/
instance : LE TypeKey := ⟨fun a b => a.value ≤ b.value⟩

instance (a b : TypeKey) : Decidable (a ≤ b) := inferInstanceAs (Decidable (a.value ≤ b.value))

end TypeKey

/-- The key of the type with a qualified name. -/
def QualifiedName.key (n : QualifiedName) : TypeKey := .ofName n.display

end Graft
