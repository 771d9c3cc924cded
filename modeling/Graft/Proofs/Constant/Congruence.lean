/-
Module: Graft.Proofs.Constant.Congruence
Purpose: What the values of constant fields depend on.
Main exports: ConstantFields.Alike, ConstantFields.Alike.valueDuring, ConstantFields.Alike.evaluateAll

The evaluation of a field sees the types, their fields and the initializers with their scopes.  It does
not see the other members of types, nor scopes in which no initializer stands.
-/
import Graft.Proofs.Program.Alike
import Graft.Proofs.Constant.Derivation

namespace Graft

/-- The same fields with the same initializers. -/
structure ConstantFields.Alike (p p' : ConstantFields) : Prop where
  registry : p.registry.Alike p'.registry
  field? : p.registry.field? = p'.registry.field?
  byField : p.initializers.byField = p'.initializers.byField
  scopeOf? : ∀ id init, p.initializers.get? id = some init →
    p.initializers.scopeOf? init = p'.initializers.scopeOf? init

namespace ConstantFields.Alike

variable {p p' : ConstantFields} (h : p.Alike p')
include h

theorem fieldText : p.registry.fieldText = p'.registry.fieldText := by
  funext id
  have hqualified := h.registry.map_get? (f := TypeEntry.qualified) (fun _ => rfl) id.owner
  unfold Registry.fieldText
  cases he : p.registry.get? id.owner <;> cases he' : p'.registry.get? id.owner <;>
    rw [he, he'] at hqualified <;> simp_all

theorem constantField : p.registry.constantField = p'.registry.constantField := by
  have howner : p.registry.fieldOwner? = p'.registry.fieldOwner? := by
    funext s name
    rw [Registry.fieldOwner?, Registry.fieldOwner?, h.field?]
  have hid : p.registry.fieldId? = p'.registry.fieldId? := by
    funext s n
    rw [Registry.fieldId?.eq_def, Registry.fieldId?.eq_def, howner, h.registry.type]
  funext s source n
  rw [Registry.constantField, Registry.constantField, hid, h.field?]

theorem stored : p.stored = p'.stored := by
  funext id
  rw [ConstantFields.stored, ConstantFields.stored, h.field?, h.fieldText]

theorem ofExpr {field field' : FieldId → Evaluation Constant} (hfield : field = field') (s : Scope)
    (source : String) (e : Expr) :
    Evaluation.ofExpr p.registry s source field e = Evaluation.ofExpr p'.registry s source field' e :=
  Evaluation.ofExpr_congr hfield fun _ _ => by rw [h.constantField]

/-- The value of a field does not depend on anything else. -/
theorem valueDuring (waiting : List FieldId) (id : FieldId) :
    p.valueDuring waiting id = p'.valueDuring waiting id := by
  have hget : ∀ id, p'.initializers.get? id = p.initializers.get? id := fun id => by
    rw [Initializers.get?, Initializers.get?, h.byField]
  funext values
  induction waiting, id, values using ConstantFields.valueDuring.induct p with
  | case1 waiting id values known found =>
      rw [ConstantFields.valueDuring, ConstantFields.valueDuring, found]
  | case2 waiting id values unknown again =>
      rw [ConstantFields.valueDuring, ConstantFields.valueDuring, unknown, h.fieldText]
      simp only [again, dite_true]
  | case3 waiting id values unknown new settled =>
      rw [valueDuring_of_settled unknown new settled,
        valueDuring_of_settled unknown new ((hget id).trans settled), h.stored]
  | case4 waiting id values unknown new init pending missing =>
      rw [valueDuring_of_noScope unknown new pending missing,
        valueDuring_of_noScope unknown new ((hget id).trans pending)
          ((h.scopeOf? id init pending).symm.trans missing), h.fieldText]
  | case5 waiting id values unknown new init pending scope hscope result after ran ih =>
      have hfield : (fun other => p.valueDuring (id :: waiting) other) =
          fun other => p'.valueDuring (id :: waiting) other :=
        funext fun other => funext fun values => ih other values
      have ran' := ran
      rw [h.ofExpr hfield] at ran'
      rw [valueDuring_of_pending unknown new pending hscope ran,
        valueDuring_of_pending unknown new ((hget id).trans pending)
          ((h.scopeOf? id init pending).symm.trans hscope) ran']

theorem evaluate : p.evaluate = p'.evaluate := by
  funext s source e
  exact h.ofExpr (funext (h.valueDuring [])) s source e

theorem evaluateAll : p.evaluateAll = p'.evaluateAll := by
  funext values
  have hvalue : p.value = p'.value := funext (h.valueDuring [])
  rw [ConstantFields.evaluateAll, ConstantFields.evaluateAll, inOrder, inOrder, hvalue,
    Initializers.fields, Initializers.fields, h.byField]

end ConstantFields.Alike

end Graft
