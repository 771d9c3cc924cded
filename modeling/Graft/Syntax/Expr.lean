/-
Module: Graft.Syntax.Expr
Purpose: Expressions that may be constant.
Main exports: LiteralValue, Expr

Only what can be constant is kept as a tree.  Of every other expression just its place is known.
-/
import Graft.Double.Basic
import Graft.Syntax.Type

namespace Graft

/-- The value of a literal. -/
inductive LiteralValue where
  | string (value : String)
  /-- A string that may have holes; without a value it has one. -/
  | interpolated (value? : Option String)
  | char (value : Char)
  | int (value : Int)
  | real (value : Double)
  | bool (value : Bool)
  | null
deriving DecidableEq, Repr, Inhabited

/-- An expression. -/
inductive Expr where
  | literal (value : LiteralValue) (span : Span)
  | name (target : NamedType)
  | nameOf (target : NamedType) (span : Span)
  | add (lhs rhs : Expr) (span : Span)
  | negate (operand : Expr) (span : Span)
  | paren (inner : Expr) (span : Span)
  | unsupported (span : Span)
deriving Repr, Inhabited

namespace Expr

/-- Where an expression is written. -/
def span : Expr → Span
  | literal _ span | nameOf _ span | add _ _ span | negate _ span | paren _ span
  | unsupported span => span
  | name target => target.span

/-- The expression is one that may be constant. -/
def isSupported : Expr → Bool
  | unsupported _ => false
  | _ => true

end Expr

end Graft
