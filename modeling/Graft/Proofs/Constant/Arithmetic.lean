/-
Module: Graft.Proofs.Constant.Arithmetic
Purpose: Integers and characters are added and negated exactly or not at all, and strings are joined in
  order.
Main exports: Arithmetic, Arithmetic.exactValue, Arithmetic.evaluate_eq, Concatenation,
  Concatenation.evaluate_eq, ConstantFields.evaluate_exact

An operation whose exact result has more than 64 bits is refused, and an expression with a refused operand
has no value.  So an expression has a value exactly if each expression in it denotes an integer of 64 bits.
Otherwise the first one that does not, in the order of evaluation, makes the error.
-/
import Graft.Proofs.Parser.IntegerLiterals

namespace Graft

/-! ### Single operations -/

namespace Constant

/-- The integer that an integer or a character counts as. -/
def number? : Constant → Option Int
  | int i => some i
  | char c => some c.toNat
  | _ => none

variable {a b : Constant} {i j : Int}

theorem add_of_number? (ha : a.number? = some i) (hb : b.number? = some j) : a.add b =
    if fits (i + j) then .ok (int (i + j)) else .error (.invalidOperands "+" a.kindName b.kindName) := by
  have hsum : a.sum? b = int? (i + j) := by
    cases a <;> cases ha <;> cases b <;> cases hb <;> rfl
  rw [add, hsum, int?]
  by_cases hfits : fits (i + j) = true
  · rw [if_pos hfits, if_pos hfits]
  · rw [if_neg hfits, if_neg hfits]

theorem negate_of_number? (ha : a.number? = some i) : a.negate =
    if fits (-i) then .ok (int (-i)) else .error (.invalidOperands "-" a.kindName a.kindName) := by
  have hnegative : a.negative? = int? (-i) := by
    cases a <;> cases ha <;> rfl
  rw [negate, hnegative, int?]
  by_cases hfits : fits (-i) = true
  · rw [if_pos hfits, if_pos hfits]
  · rw [if_neg hfits, if_neg hfits]

/-- An integer of 64 bits fits. -/
theorem fits_toInt (value : Int64) : fits value.toInt = true := by
  have hlower := value.le_toInt
  have hupper := value.toInt_lt
  simp only [fits, Bool.and_eq_true, decide_eq_true_eq]
  omega

/-- The code point of a character fits. -/
theorem fits_toNat (c : Char) : fits c.toNat = true := by
  have hupper : c.toNat < 1114112 := by
    rcases c.valid with h | h
    · exact Nat.lt_trans h (by decide)
    · exact h.2
  simp only [fits, Bool.and_eq_true, decide_eq_true_eq]
  omega

end Constant

namespace ConstantFields

variable {p : ConstantFields} {scope : Scope} {source : String} {values : FieldValues}

/-- Operands are evaluated from left to right, and the first error ends the evaluation. -/
theorem evaluate_add {lhs rhs : Expr} {span : Span} {left right : Except ConstantError Constant}
    (hleft : p.evaluate scope source lhs values = (left, values))
    (hright : p.evaluate scope source rhs values = (right, values)) :
    p.evaluate scope source (.add lhs rhs span) values = (left.bind fun a => right.bind a.add, values) := by
  have hbind : p.evaluate scope source (.add lhs rhs span) values = ExceptT.bindCont
      (fun a => (p.evaluate scope source rhs >>= fun b => liftM (a.add b) : Evaluation Constant))
      (p.evaluate scope source lhs values).1 (p.evaluate scope source lhs values).2 := rfl
  have hbind' : ∀ a : Constant,
      (p.evaluate scope source rhs >>= fun b => liftM (a.add b) : Evaluation Constant) values =
        ExceptT.bindCont
        (fun b => (liftM (a.add b) : Evaluation Constant)) (p.evaluate scope source rhs values).1
        (p.evaluate scope source rhs values).2 := fun _ => rfl
  rw [hbind, hleft]
  cases left with
  | error e => rfl
  | ok a =>
      refine (hbind' a).trans ?_
      rw [hright]
      cases right <;> rfl

end ConstantFields

/-! ### Integers and characters -/

/-- An expression of literals of integers and characters, parentheses, minus signs and sums.  An integer
literal has 64 bits, one of them for the sign. -/
inductive Arithmetic where
  | int (value : Int64) (span : Span)
  | char (value : Char) (span : Span)
  | paren (inner : Arithmetic) (span : Span)
  | negate (operand : Arithmetic) (span : Span)
  | add (lhs rhs : Arithmetic) (span : Span)

namespace Arithmetic

/-- The expression as one that may be constant. -/
def expr : Arithmetic → Expr
  | int value span => .literal (.int value.toInt) span
  | char value span => .literal (.char value) span
  | paren inner span => .paren inner.expr span
  | negate operand span => .negate operand.expr span
  | add lhs rhs span => .add lhs.expr rhs.expr span

/-- The integer that an expression denotes, however great. -/
def exactValue : Arithmetic → Int
  | int value _ => value.toInt
  | char value _ => value.toNat
  | paren inner _ => inner.exactValue
  | negate operand _ => -operand.exactValue
  | add lhs rhs _ => lhs.exactValue + rhs.exactValue

/-- The character that an expression is, perhaps between parentheses. -/
def char? : Arithmetic → Option Char
  | char value _ => some value
  | paren inner _ => inner.char?
  | _ => none

/-- An expression and all expressions in it in the order of evaluation, operands
before what is made of them. -/
def parts : Arithmetic → List Arithmetic
  | int value span => [int value span]
  | char value span => [char value span]
  | paren inner span => inner.parts ++ [paren inner span]
  | negate operand span => operand.parts ++ [negate operand span]
  | add lhs rhs span => lhs.parts ++ rhs.parts ++ [add lhs rhs span]

attribute [local simp] parts exactValue

/-- The first expression in an expression that denotes no integer of 64 bits. -/
def misfit? (e : Arithmetic) : Option Arithmetic := e.parts.find? fun part => !Constant.fits part.exactValue

/-- What an expression comes to if nothing in it is refused. -/
def constant (e : Arithmetic) : Constant := e.char?.elim (.int e.exactValue) .char

/-- The error of an operation whose operands have values and whose result does not fit.
Nothing else makes an error. -/
def refusal? : Arithmetic → Option ConstantError
  | negate operand _ => some (.invalidOperands "-" operand.constant.kindName operand.constant.kindName)
  | add lhs rhs _ => some (.invalidOperands "+" lhs.constant.kindName rhs.constant.kindName)
  | _ => none

/-- What an expression comes to: its value if all expressions in it fit, or else the error of the
first one that does not. -/
def outcome (e : Arithmetic) : Except ConstantError Constant :=
  match e.misfit?.bind refusal? with
  | none => .ok e.constant
  | some error => .error error

theorem number?_constant (e : Arithmetic) : e.constant.number? = some e.exactValue := by
  unfold constant
  cases hchar : e.char? with
  | none => rfl
  | some c =>
      induction e with
      | int | negate | add => cases hchar
      | char value _ => rw [Option.some.inj hchar.symm]; rfl
      | paren inner _ ih => exact ih hchar

/-! What does not fit first. -/

section

variable {e inner operand lhs rhs : Arithmetic} {span : Span}

theorem mem_parts_self (e : Arithmetic) : e ∈ e.parts := by
  cases e <;> simp [parts]

theorem misfit?_paren : (paren inner span).misfit? = inner.misfit? := by
  rw [misfit?, parts, List.find?_append, ← misfit?]
  cases hinner : inner.misfit? with
  | some part => rfl
  | none =>
      have hfits := List.find?_eq_none.1 hinner inner inner.mem_parts_self
      rw [Option.none_or, List.find?_eq_none]
      rintro part hpart
      rw [List.mem_singleton.1 hpart]
      exact hfits

theorem misfit?_negate : (negate operand span).misfit? =
    operand.misfit?.or (if Constant.fits (-operand.exactValue) then none else
      some (negate operand span)) := by
  rw [misfit?, parts, List.find?_append, ← misfit?, List.find?_singleton]
  cases hfits : Constant.fits (-operand.exactValue) <;> simp [exactValue, hfits]

theorem misfit?_add : (add lhs rhs span).misfit? = (lhs.misfit?.or rhs.misfit?).or
    (if Constant.fits (lhs.exactValue + rhs.exactValue) then none else some (add lhs rhs span)) := by
  rw [misfit?, parts, List.find?_append, List.find?_append, ← misfit?, ← misfit?, List.find?_singleton]
  cases hfits : Constant.fits (lhs.exactValue + rhs.exactValue) <;> simp [exactValue, hfits]

/-- What does not fit first is an operation, since literals fit and parentheses change nothing. -/
theorem exists_refusal {part : Arithmetic} (h : e.misfit? = some part) :
    ∃ error, part.refusal? = some error := by
  induction e with
  | int value _ => simp [misfit?, parts, exactValue, Constant.fits_toInt] at h
  | char value _ => simp [misfit?, parts, exactValue, Constant.fits_toNat] at h
  | paren inner _ ih => exact ih (misfit?_paren ▸ h)
  | negate operand span ih =>
      rw [misfit?_negate, Option.or_eq_some_iff] at h
      rcases h with h | ⟨-, h⟩
      · exact ih h
      · split at h
        · cases h
        · exact Option.some.inj h ▸ ⟨_, rfl⟩
  | add lhs rhs span ihl ihr =>
      rw [misfit?_add, Option.or_eq_some_iff, Option.or_eq_some_iff] at h
      rcases h with (h | ⟨-, h⟩) | ⟨-, h⟩
      · exact ihl h
      · exact ihr h
      · split at h
        · cases h
        · exact Option.some.inj h ▸ ⟨_, rfl⟩

end

/-! What an expression comes to. -/

section

variable {inner operand lhs rhs : Arithmetic} {span : Span}

theorem outcome_of_misfit {e part : Arithmetic} {error : ConstantError} (h : e.misfit? = some part)
    (refused : part.refusal? = some error) : e.outcome = .error error := by
  rw [outcome, h, Option.bind_some, refused]

theorem outcome_of_fits {e : Arithmetic} (h : e.misfit? = none) : e.outcome = .ok e.constant := by
  rw [outcome, h, Option.bind_none]

theorem outcome_paren : (paren inner span).outcome = inner.outcome := by
  rw [outcome, misfit?_paren]
  rfl

theorem outcome_negate : (negate operand span).outcome = operand.outcome.bind Constant.negate := by
  cases hoperand : operand.misfit? with
  | some part =>
      obtain ⟨error, herror⟩ := exists_refusal hoperand
      rw [outcome_of_misfit hoperand herror,
        outcome_of_misfit (by rw [misfit?_negate, hoperand, Option.some_or]) herror]
      rfl
  | none =>
      rw [outcome_of_fits hoperand]
      change _ = operand.constant.negate
      rw [Constant.negate_of_number? operand.number?_constant]
      have hmisfit : (negate operand span).misfit? = _ := misfit?_negate
      rw [hoperand, Option.none_or] at hmisfit
      split at hmisfit
      · rename_i hfits
        rw [if_pos hfits, outcome_of_fits hmisfit]
        rfl
      · rename_i hfits
        rw [if_neg hfits, outcome_of_misfit hmisfit rfl]

theorem outcome_add :
    (add lhs rhs span).outcome = lhs.outcome.bind fun a => rhs.outcome.bind a.add := by
  have hmisfit : (add lhs rhs span).misfit? = _ := misfit?_add
  cases hlhs : lhs.misfit? with
  | some part =>
      obtain ⟨error, herror⟩ := exists_refusal hlhs
      rw [hlhs, Option.some_or, Option.some_or] at hmisfit
      rw [outcome_of_misfit hlhs herror, outcome_of_misfit hmisfit herror]
      rfl
  | none =>
      rw [hlhs, Option.none_or] at hmisfit
      rw [outcome_of_fits hlhs]
      change _ = rhs.outcome.bind lhs.constant.add
      cases hrhs : rhs.misfit? with
      | some part =>
          obtain ⟨error, herror⟩ := exists_refusal hrhs
          rw [hrhs, Option.some_or] at hmisfit
          rw [outcome_of_misfit hrhs herror, outcome_of_misfit hmisfit herror]
          rfl
      | none =>
          rw [hrhs, Option.none_or] at hmisfit
          rw [outcome_of_fits hrhs]
          change _ = lhs.constant.add rhs.constant
          rw [Constant.add_of_number? lhs.number?_constant rhs.number?_constant]
          split at hmisfit
          · rename_i hfits
            rw [if_pos hfits, outcome_of_fits hmisfit]
            rfl
          · rename_i hfits
            rw [if_neg hfits, outcome_of_misfit hmisfit rfl]

end

/-- Evaluation comes to the outcome, and finds nothing out about fields. -/
theorem evaluate_eq (p : ConstantFields) (scope : Scope) (source : String) (values : FieldValues)
    (e : Arithmetic) :
    p.evaluate scope source e.expr values = (e.outcome, values) := by
  induction e with
  | int value _ => rw [outcome_of_fits (by simp [misfit?, parts, exactValue, Constant.fits_toInt])]; rfl
  | char value _ => rw [outcome_of_fits (by simp [misfit?, parts, exactValue, Constant.fits_toNat])]; rfl
  | paren inner _ ih =>
      rw [outcome_paren]
      exact ih
  | negate operand _ ih =>
      rw [outcome_negate]
      exact ConstantFields.evaluate_negate ih
  | add lhs rhs _ ihl ihr =>
      rw [outcome_add]
      exact ConstantFields.evaluate_add ihl ihr

/-- No other error is made. -/
theorem exists_operands {part : Arithmetic} {error : ConstantError} (h : part.refusal? = some error) :
    ∃ op lhs rhs, error = .invalidOperands op lhs rhs := by
  cases part <;> cases h <;> exact ⟨_, _, _, rfl⟩

/-- All expressions in an expression denote integers of 64 bits if there is no first one that does not. -/
theorem misfit?_eq_none_iff {e : Arithmetic} : e.misfit? = none ↔
    ∀ part ∈ e.parts, -2 ^ 63 ≤ part.exactValue ∧ part.exactValue < 2 ^ 63 := by
  rw [misfit?, List.find?_eq_none]
  simp [Constant.fits]

theorem constant_eq_char_iff {e : Arithmetic} {c : Char} : e.constant = .char c ↔ e.char? = some c := by
  rw [constant]
  cases e.char? <;> simp

theorem constant_eq_int_iff {e : Arithmetic} {v : Int} :
    e.constant = .int v ↔ e.char? = none ∧ v = e.exactValue := by
  rw [constant]
  cases e.char? <;> simp [eq_comm]

/-- A character has nothing in it that does not fit. -/
theorem misfit?_of_char? {e : Arithmetic} {c : Char} (h : e.char? = some c) : e.misfit? = none := by
  induction e with
  | int | negate | add => cases h
  | char value _ => simp [misfit?, parts, exactValue, Constant.fits_toNat]
  | paren inner _ ih => rw [misfit?_paren, ih h]

end Arithmetic

/-! ### Strings -/

/-- An expression of string literals, parentheses and sums. -/
inductive Concatenation where
  | string (value : String) (span : Span)
  | paren (inner : Concatenation) (span : Span)
  | add (lhs rhs : Concatenation) (span : Span)

namespace Concatenation

/-- The expression as one that may be constant. -/
def expr : Concatenation → Expr
  | string value span => .literal (.string value) span
  | paren inner span => .paren inner.expr span
  | add lhs rhs span => .add lhs.expr rhs.expr span

/-- The strings of an expression from left to right. -/
def strings : Concatenation → List String
  | string value _ => [value]
  | paren inner _ => inner.strings
  | add lhs rhs _ => lhs.strings ++ rhs.strings

/-- A sum of strings is the strings one after another, however they are put between parentheses. -/
theorem evaluate_eq (p : ConstantFields) (scope : Scope) (source : String) (values : FieldValues)
    (e : Concatenation) :
    p.evaluate scope source e.expr values = (.ok (.string (String.join e.strings)), values) := by
  induction e with
  | string value _ =>
      rw [strings, String.join_cons, String.join_nil, String.append_empty]
      rfl
  | paren inner _ ih => exact ih
  | add lhs rhs _ ihl ihr =>
      rw [strings, String.join_append]
      exact ConstantFields.evaluate_add ihl ihr

end Concatenation

/-! ### All expressions -/

/-- An expression of integers and characters comes to the character that it is; or to the integer that it
denotes, exactly if all expressions in it denote integers of 64 bits; or else to the refusal of the first one
that does not.  A sum of strings comes to the strings one after another.  Nothing
is found out about fields. -/
theorem ConstantFields.evaluate_exact (p : ConstantFields) (scope : Scope) (source : String)
    (values : FieldValues) :
    (∀ e : Arithmetic, ∃ answer, p.evaluate scope source e.expr values = (answer, values) ∧
      (∀ c, answer = .ok (.char c) ↔ e.char? = some c) ∧
      (∀ v, answer = .ok (.int v) ↔ e.char? = none ∧
        (∀ part ∈ e.parts, -2 ^ 63 ≤ part.exactValue ∧ part.exactValue < 2 ^ 63) ∧ v = e.exactValue) ∧
      (e.char? = none ∧ ¬(∀ part ∈ e.parts, -2 ^ 63 ≤ part.exactValue ∧ part.exactValue < 2 ^ 63) →
        ∃ part ∈ e.misfit?, ∃ op lhs rhs, part.refusal? = some (.invalidOperands op lhs rhs) ∧
          answer = .error (.invalidOperands op lhs rhs))) ∧
    ∀ e : Concatenation,
      p.evaluate scope source e.expr values = (.ok (.string (String.join e.strings)), values) := by
  refine ⟨fun e => ⟨e.outcome, e.evaluate_eq p scope source values, ?_⟩,
    fun e => e.evaluate_eq p scope source values⟩
  rw [← Arithmetic.misfit?_eq_none_iff]
  cases hmisfit : e.misfit? with
  | none =>
      rw [Arithmetic.outcome_of_fits hmisfit]
      refine ⟨fun c => ?_, fun v => ?_, fun h => absurd rfl h.2⟩
      · rw [Except.ok.injEq, Arithmetic.constant_eq_char_iff]
      · rw [Except.ok.injEq, Arithmetic.constant_eq_int_iff]
        simp
  | some part =>
      obtain ⟨error, herror⟩ := Arithmetic.exists_refusal hmisfit
      obtain ⟨op, lhs, rhs, rfl⟩ := Arithmetic.exists_operands herror
      rw [Arithmetic.outcome_of_misfit hmisfit herror]
      refine ⟨fun c => ⟨nofun, fun hchar => ?_⟩, fun v => ⟨nofun, fun h => nomatch h.2.1⟩, fun _ =>
        ⟨part, rfl, op, lhs, rhs, herror, rfl⟩⟩
      rw [Arithmetic.misfit?_of_char? hchar] at hmisfit
      cases hmisfit

end Graft
