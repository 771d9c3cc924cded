/-
Module: Graft.Constant.Value
Purpose: Compile-time constants and the operators on them.
Main exports: Constant, ConstantError, Constant.add, Constant.negate

Integers have 64 bits and a sign.  An operation whose result does not fit is refused, never wrapped.
-/
import Graft.Double.Shortest
import Graft.Text.Quoted

namespace Graft

/-- A compile-time constant. -/
inductive Constant where
  | string (value : String)
  | char (value : Char)
  | int (value : Int)
  | real (value : Double)
  | bool (value : Bool)
  | null
deriving DecidableEq, Repr, Inhabited

/-- Why an expression has no value. -/
inductive ConstantError where
  /-- The expression has a form that is never constant. -/
  | notConstant (text : String)
  /-- A name does not stand for a constant. -/
  | unresolved (name : String)
  /-- A constant is needed for its own value. -/
  | cyclic (name : String)
  /-- An operator does not go with operands of these kinds. -/
  | invalidOperands (op lhs rhs : String)
deriving DecidableEq, Repr, Inhabited

namespace ConstantError

/-- The message of an error. -/
def message : ConstantError → String
  | notConstant text => s!"'{text}' is not a constant expression"
  | unresolved name => s!"'{name}' does not name a constant"
  | cyclic name => s!"constant '{name}' depends on itself"
  | invalidOperands op lhs rhs => s!"operator '{op}' cannot combine {lhs} and {rhs}"

end ConstantError

namespace Constant

/-- What constants of this kind are called. -/
def kindName : Constant → String
  | string _ => "string"
  | char _ => "char"
  | int _ => "integer"
  | real _ => "floating-point"
  | bool _ => "bool"
  | null => "null"

/-- The string that a constant is. -/
def string? : Constant → Option String
  | string value => some value
  | _ => none

/-- The text that a constant adds to a string. -/
def text : Constant → String
  | string value => value
  | char value => toString value
  | int value => toString value
  | real value => value.display
  | bool true => "True"
  | bool false => "False"
  | null => ""

/-- The text of a constant as it would be written. -/
def display : Constant → String
  | string value => Text.quoted value
  | char value => Text.quotedChar value
  | int value => toString value
  | real value => value.display
  | bool true => "true"
  | bool false => "false"
  | null => "null"

/-- The integer fits 64 bits with a sign. -/
def fits (i : Int) : Bool := -0x8000000000000000 ≤ i && i < 0x8000000000000000

/-- An integer constant, if the integer fits. -/
def int? (i : Int) : Option Constant := if fits i then some (int i) else none

/-- The sum of two constants.  What is added to a string, or a string is added to, is written out;
characters count as their code points. -/
def sum? : Constant → Constant → Option Constant
  | string a, b => some (string (a ++ b.text))
  | a, string b => some (string (a.text ++ b))
  | int a, int b => int? (a + b)
  | char a, char b => int? (a.toNat + b.toNat)
  | char a, int b => int? (a.toNat + b)
  | int a, char b => int? (a + b.toNat)
  | real a, real b => some (real (a.add b))
  | real a, int b => some (real (a.add (.ofInt b)))
  | int a, real b => some (real (b.add (.ofInt a)))
  | _, _ => none

/-- The sum of two constants, or why there is none. -/
def add (a b : Constant) : Except ConstantError Constant :=
  match a.sum? b with
  | some value => .ok value
  | none => .error (.invalidOperands "+" a.kindName b.kindName)

/-- The negative of a constant. -/
def negative? : Constant → Option Constant
  | int i => int? (-i)
  | real d => some (real d.neg)
  | char c => int? (-c.toNat)
  | _ => none

/-- The negative of a constant, or why there is none. -/
def negate (a : Constant) : Except ConstantError Constant :=
  match a.negative? with
  | some value => .ok value
  | none => .error (.invalidOperands "-" a.kindName a.kindName)

end Constant

end Graft
