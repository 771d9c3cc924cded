/-
Module: Graft.Modifiers
Purpose: The set of modifier keywords written on a declaration.
Main exports: Modifiers, Modifiers.ofKeyword?, Modifiers.union, Modifiers.accessibility?
-/

namespace Graft

/-- A set of modifiers; the bit of a modifier is its place in `Modifiers.keywords`. -/
structure Modifiers where
  bits : UInt32
deriving DecidableEq, Repr, Inhabited

namespace Modifiers

/-- The modifier keywords in the order of their bits. The first five say who may use a
declaration. -/
def keywords : List String :=
  ["public", "private", "protected", "internal", "file", "static", "partial", "sealed",
   "abstract", "readonly", "const", "virtual", "override", "new", "extern", "unsafe",
   "volatile", "async", "required", "ref"]

/-- No modifier at all. -/
def empty : Modifiers := ⟨0⟩

/-- The set that holds the modifier at one place. -/
def single (place : Nat) : Modifiers := ⟨1 <<< place.toUInt32⟩

/-- The set that holds the modifier a keyword stands for. -/
def ofKeyword? (keyword : String) : Option Modifiers :=
  (keywords.idxOf? keyword).map single

/-- The modifiers of either set. -/
def union (m n : Modifiers) : Modifiers := ⟨m.bits ||| n.bits⟩

instance : Union Modifiers := ⟨union⟩

/-- Every modifier of `n` is in `m`. -/
def contains (m n : Modifiers) : Bool := m.bits &&& n.bits == n.bits

/-- The set with only `partial`. -/
def partialOnly : Modifiers := ⟨64⟩

/-- The set with only `const`. -/
def constOnly : Modifiers := ⟨1024⟩

/-- The declaration is one part of a type or member that may have several. -/
def isPartial (m : Modifiers) : Bool := m.contains partialOnly

/-- The declaration is a compile-time constant. -/
def isConst (m : Modifiers) : Bool := m.contains constOnly

/-- The keywords that say who may use the declaration, in their usual order; nothing if there are
none or their combination has no meaning. -/
def accessibility? (m : Modifiers) : Option String :=
  let access := m.bits &&& 31
  if access = 1 then some "public"
  else if access = 8 then some "internal"
  else if access = 2 then some "private"
  else if access = 4 then some "protected"
  else if access = 16 then some "file"
  else if access = 12 then some "protected internal"
  else if access = 6 then some "private protected"
  else none

example : ofKeyword? "partial" = some partialOnly := by decide
example : ofKeyword? "const" = some constOnly := by decide
example : ofKeyword? "class" = none := by decide
example : accessibility? ⟨1 + 2⟩ = none := by decide

theorem union_comm (m n : Modifiers) : m.union n = n.union m := by
  simp [union, UInt32.or_comm]

theorem union_assoc (m n o : Modifiers) : (m.union n).union o = m.union (n.union o) := by
  simp [union, UInt32.or_assoc]

@[simp] theorem union_self (m : Modifiers) : m.union m = m := by
  simp [union]

end Modifiers

end Graft
