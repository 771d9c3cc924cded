/-
Module: Graft.Constant.Evaluation
Purpose: The values of expressions and of constant fields.
Main exports: FieldId, Initializer, ConstantFields, ConstantFields.value, ConstantFields.evaluate,
  ConstantFields.evaluateAll

The value of a constant field is the value of its initializer in the scope of its declaration.  Each
initializer is evaluated once, when the value is first needed; what came out is kept, be it a value
or an error.  A field whose value is needed for its own value has none.
-/
import Graft.Lookup

namespace Graft

/-- A field is known by the type that declares it and its name. -/
structure FieldId where
  owner : TypeKey
  name : String
deriving DecidableEq, Repr, Inhabited

/-- Fields are ordered by the key of their type, then by name. -/
def FieldId.precedes (a b : FieldId) : Bool :=
  a.owner.value < b.owner.value || (a.owner = b.owner && decide (a.name ≤ b.name))

/-- An expression that gives a field its value, with the number of the scope and the text it stands
in. -/
structure Initializer where
  expr : Expr
  scope : Nat
  source : String
deriving Repr, Inhabited

/-- The initializers of fields, and the scopes they stand in. -/
structure Initializers where
  scopes : List Scope
  byField : Assoc FieldId Initializer
deriving Repr, Inhabited

namespace Initializers

/-- No field has an initializer. -/
def empty : Initializers := ⟨[], .empty⟩

/-- The fields with initializers. -/
def fields (i : Initializers) : List FieldId := i.byField.keys

/-- The initializer of a field. -/
def get? (i : Initializers) (id : FieldId) : Option Initializer := i.byField.get? id

/-- The scope that an initializer stands in. -/
def scopeOf? (i : Initializers) (init : Initializer) : Option Scope := i.scopes[init.scope]?

/-- The fields with initializers that do not wait. -/
def idle (i : Initializers) (waiting : List FieldId) : List FieldId :=
  i.fields.filter (· ∉ waiting)

/-- A field with an initializer that starts to wait is idle no more. -/
theorem length_idle_lt {i : Initializers} {waiting : List FieldId} {id : FieldId}
    {init : Initializer} (hget : i.get? id = some init) (hnew : id ∉ waiting) :
    (i.idle (id :: waiting)).length < (i.idle waiting).length := by
  have hmem : id ∈ i.fields := Assoc.mem_keys_of_get? hget
  have hsplit : i.idle (id :: waiting) = (i.idle waiting).filter (· ≠ id) := by
    simp [idle, List.filter_filter, List.mem_cons]
  rw [hsplit]
  refine List.length_filter_lt_length_iff_exists.2 ⟨id, ?_, by simp⟩
  simpa [idle] using ⟨hmem, hnew⟩

end Initializers

namespace Registry

/-- A field with the name of its type. -/
def fieldText (r : Registry) (id : FieldId) : String :=
  match r.get? id.owner with
  | some entry => entry.qualified.display ++ "." ++ id.name
  | none => id.name

/-- The first field with a name in a type. -/
def field? (r : Registry) (id : FieldId) : Option FieldEntry :=
  (r.get? id.owner).bind (·.fieldNamed? id.name)

/-- The type whose field a simple name stands for: the innermost type around the point that has one,
or else the first type that is imported for its members. -/
def fieldOwner? (r : Registry) (s : Scope) (name : String) : Option TypeKey :=
  (s.types ++ s.levels.flatMap (·.staticImports)).find? fun key => (r.field? ⟨key, name⟩).isSome

/-- The field that a name would stand for.  The last segment is the field's name and the ones before
it name its type. -/
def fieldId? (r : Registry) (s : Scope) (n : NamedType) : Option FieldId :=
  match n.last? with
  | some ⟨name, []⟩ =>
      let path := n.segments.dropLast
      let owner? :=
        if path.isEmpty && n.alias?.isNone then r.fieldOwner? s name.name
        else (Lookup.type r s { n with segments := path }).toOption
      owner?.map (⟨·, name.name⟩)
  | _ => none

/-- The constant field that a name stands for, or why there is none. -/
def constantField (r : Registry) (s : Scope) (source : String) (n : NamedType) :
    Except ConstantError FieldId :=
  let text := NamedType.display n
  match r.fieldId? s n with
  | none => .error (.unresolved text)
  | some id =>
      match r.field? id with
      | none => .error (.unresolved text)
      | some field =>
          if field.modifiers.isConst then .ok id
          else .error (.notConstant ((n.span.slice? source).getD text))

end Registry

/-- What is known of fields: whether each has a value or an error. -/
abbrev FieldValues := Assoc FieldId (Except ConstantError Constant)

/-- A computation that may need the values of fields and keeps those it finds. -/
abbrev Evaluation := ExceptT ConstantError (StateM FieldValues)

/-- The constant that a literal is; a string with holes is none. -/
def LiteralValue.constant? : LiteralValue → Option Constant
  | string value => some (.string value)
  | interpolated value? => value?.map .string
  | char value => some (.char value)
  | int value => some (.int value)
  | real value => some (.real value)
  | bool value => some (.bool value)
  | null => some .null

namespace Evaluation

/-- A constant, or the error that an expression of this form has none. -/
def constant (span : Span) (source : String) : Option Constant → Evaluation Constant
  | some value => pure value
  | none => throw (.notConstant ((span.slice? source).getD "<expression>"))

/-- The value of an expression, given how the value of a constant field is found. -/
def ofExpr (r : Registry) (s : Scope) (source : String) (field : FieldId → Evaluation Constant) :
    Expr → Evaluation Constant
  | .literal value span => constant span source value.constant?
  | .nameOf target span =>
      constant span source (target.last?.map fun segment => .string segment.name.name)
  | .name target => do field (← r.constantField s source target)
  | .paren inner _ => ofExpr r s source field inner
  | .negate operand _ => do
      let value ← ofExpr r s source field operand
      value.negate
  | .add lhs rhs _ => do
      let a ← ofExpr r s source field lhs
      let b ← ofExpr r s source field rhs
      a.add b
  | .unsupported span => constant span source none

end Evaluation

/-- The constant fields of a program: those that are declared, and the initializers of those that
have no value yet. -/
structure ConstantFields where
  registry : Registry
  initializers : Initializers
deriving Repr, Inhabited

namespace ConstantFields

/-- The value that is stored with a field. -/
def stored (p : ConstantFields) (id : FieldId) : Except ConstantError Constant :=
  match (p.registry.field? id).bind (·.value?) with
  | some value => .ok value
  | none => .error (.unresolved (p.registry.fieldText id))

/-- The value of a field while others, those in `waiting`, wait for it.  What waits has an
initializer, so that only so many initializers are evaluated inside one another as there are. -/
def valueDuring (p : ConstantFields) (waiting : List FieldId) (id : FieldId) :
    Evaluation Constant := fun values =>
  match values.get? id with
  | some known => (known, values)
  | none =>
      if _hnew : id ∈ waiting then (.error (.cyclic (p.registry.fieldText id)), values)
      else
        match _hget : p.initializers.get? id with
        | none => (p.stored id, values)
        | some init =>
            match p.initializers.scopeOf? init with
            | none => (.error (.unresolved (p.registry.fieldText id)), values)
            | some scope =>
                let (value, values) :=
                  Evaluation.ofExpr p.registry scope init.source
                    (fun other => p.valueDuring (id :: waiting) other) init.expr values
                (value, values.insert id value)
termination_by (p.initializers.idle waiting).length
decreasing_by exact Initializers.length_idle_lt _hget _hnew

/-- The value of a field. -/
def value (p : ConstantFields) (id : FieldId) : Evaluation Constant := p.valueDuring [] id

/-- The value of an expression in a scope. -/
def evaluate (p : ConstantFields) (s : Scope) (source : String) (e : Expr) : Evaluation Constant :=
  Evaluation.ofExpr p.registry s source p.value e

/-- The fields with initializers in the order in which all of them are evaluated. -/
def inOrder (p : ConstantFields) : List FieldId :=
  p.initializers.fields.mergeSort FieldId.precedes

/-- What is known after all fields with initializers are evaluated, if `values` was known before. -/
def evaluateAll (p : ConstantFields) (values : FieldValues) : FieldValues :=
  p.inOrder.foldl (fun values id => ((p.value id).run values).2) values

end ConstantFields

end Graft
