/-
Module: Graft.Proofs.Program.Stored
Purpose: The values that are stored with the fields of completed types.
Main exports: ConstantFields.nodup_evaluateAll, FieldValues.settled_field, Completion.field?_ofRegistration,
  Completion.value?_eq_some_iff, Completion.constantFields, Completion.evaluate_stored_iff

While types are completed a constant field has an initializer and, for an evaluator, a value; when they
are completed only the value is left.  The value of the first field with a name is the one that counts,
and where that field is constant all constant fields with the name get the value that its name stands
for.  A field without a value has none before and none after.
-/
import Graft.Proofs.Constant.Derivation
import Graft.Proofs.Program.Attributes
import Graft.Proofs.Program.Traced

namespace Graft

/-! ### Tables of values -/

/-- A computation keeps a property of the table. -/
def Evaluation.Keeps {α : Type} (P : FieldValues → Prop) (m : Evaluation α) : Prop :=
  ∀ values, P values → P (m.run values).2

namespace Evaluation.Keeps

variable {P : FieldValues → Prop}

theorem bind {α β : Type} {m : Evaluation α} {f : α → Evaluation β} (hm : m.Keeps P)
    (hf : ∀ a, (f a).Keeps P) :
    (m >>= f).Keeps P := by
  intro values hvalues
  have hrun : (m >>= f).run values = ExceptT.bindCont f (m.run values).1 (m.run values).2 := rfl
  have hfirst := hm values hvalues
  rw [hrun]
  revert hfirst
  rcases m.run values with ⟨_ | a, after⟩ <;> intro hfirst
  · exact hfirst
  · exact hf a after hfirst

/-- An expression keeps what fields keep. -/
theorem ofExpr {r : Registry} {s : Scope} {source : String} {field : FieldId → Evaluation Constant}
    (hfield : ∀ id, (field id).Keeps P) (e : Expr) : (Evaluation.ofExpr r s source field e).Keeps P := by
  have constant : ∀ (span : Span) (c? : Option Constant), (Evaluation.constant span source c?).Keeps P := by
    intro span c? values hvalues
    cases c? <;> exact hvalues
  have lifted : ∀ result : Except ConstantError Constant, Keeps P (liftM result : Evaluation Constant) :=
    fun _ _ hvalues => hvalues
  induction e with
  | literal value span => exact constant span value.constant?
  | nameOf target span => exact constant span _
  | name target =>
      rw [Evaluation.ofExpr]
      cases r.constantField s source target with
      | error _ => exact fun _ hvalues => hvalues
      | ok id => exact hfield id
  | paren inner _ ih => exact ih
  | negate operand _ ih => exact ih.bind fun a => lifted a.negate
  | add lhs rhs _ ihl ihr => exact ihl.bind fun a => ihr.bind fun b => lifted (a.add b)
  | unsupported span => exact constant span none

end Evaluation.Keeps

namespace ConstantFields

variable {p : ConstantFields}

/-- A field keeps what is kept when a result is put into the table. -/
theorem keeps_valueDuring {P : FieldValues → Prop}
    (hinsert : ∀ values id result, P values → P (values.insert id result)) (waiting : List FieldId)
    (id : FieldId) : (p.valueDuring waiting id).Keeps P := by
  intro values hvalues
  change P (p.valueDuring waiting id values).2
  induction waiting, id, values using valueDuring.induct p with
  | case1 waiting id values known found =>
      rw [valueDuring, found]
      exact hvalues
  | case2 waiting id values unknown waits =>
      rw [valueDuring, unknown]
      simpa only [waits, dite_true] using hvalues
  | case3 waiting id values unknown new settled =>
      rw [valueDuring_of_settled unknown new settled]
      exact hvalues
  | case4 waiting id values unknown new init pending missing =>
      rw [valueDuring_of_noScope unknown new pending missing]
      exact hvalues
  | case5 waiting id values unknown new init pending scope hscope result after ran ih =>
      rw [valueDuring_of_pending unknown new pending hscope ran]
      refine hinsert after id result ?_
      have inner : (Evaluation.ofExpr p.registry scope init.source
          (fun other => p.valueDuring (id :: waiting) other) init.expr).Keeps P :=
        .ofExpr (fun other values hvalues => ih other values hvalues) init.expr
      have hafter := inner values hvalues
      rwa [show (Evaluation.ofExpr _ _ _ _ _).run values = (result, after) from ran] at hafter

/-- In the table of all values no field stands twice. -/
theorem nodup_evaluateAll (p : ConstantFields) : (p.evaluateAll .empty).keys.Nodup := by
  have keeps : ∀ id, (p.value id).Keeps fun values => values.keys.Nodup :=
    keeps_valueDuring (fun _ id result nodup => Assoc.nodup_keys_insert nodup id result) []
  unfold evaluateAll
  refine List.foldlRecOn p.inOrder _ .nil fun values nodup id _ => keeps id values nodup

end ConstantFields

/-! ### Values of members -/

namespace FieldValues

/-- The value that a table has for a field. -/
def value? (values : FieldValues) (id : FieldId) : Option Constant := (values.get? id).bind Except.toOption

theorem value?_eq_some_iff {values : FieldValues} {id : FieldId} {c : Constant} :
    values.value? id = some c ↔ values.get? id = some (.ok c) := by
  rw [value?, Option.bind_eq_some_iff]
  constructor
  · rintro ⟨result, hget, hvalue⟩
    cases result with
    | error _ => cases hvalue
    | ok c' =>
        cases hvalue
        exact hget
  · exact fun hget => ⟨.ok c, hget, rfl⟩

/-- A field with the value that a table has for it, if it is constant. -/
def settledField (values : FieldValues) (owner : TypeKey) (f : FieldEntry) : FieldEntry :=
  if f.modifiers.isConst then { f with value? := (values.value? ⟨owner, f.name⟩).or f.value? } else f

/-- Without values fields stay as they are. -/
theorem settledField_of_value?_eq_none {values : FieldValues} {owner : TypeKey} {f : FieldEntry}
    (unknown : values.value? ⟨owner, f.name⟩ = none) : values.settledField owner f = f := by
  rw [settledField, unknown]
  split <;> rfl

/-- Where no field stands twice in a table, the field of a type gets the value that the table has for it. -/
theorem settled_field {values : FieldValues} (nodup : values.keys.Nodup) (owner : TypeKey) (f : FieldEntry) :
    values.settled owner (.field f) = .field (values.settledField owner f) := by
  obtain ⟨entries⟩ := values
  unfold settled
  change (entries.map Prod.fst).Nodup at nodup
  induction entries generalizing f with
  | nil => rw [List.foldl_nil, settledField_of_value?_eq_none rfl]
  | cons entry rest ih =>
      obtain ⟨id, result⟩ := entry
      rw [List.map_cons, List.nodup_cons] at nodup
      rw [List.foldl_cons]
      by_cases hid : id = ⟨owner, f.name⟩
      · subst hid
        have hfirst : value? ⟨(⟨owner, f.name⟩, result) :: rest⟩ ⟨owner, f.name⟩ = result.toOption := by
          simp [value?, Assoc.get?]
        have hrest : value? ⟨rest⟩ ⟨owner, f.name⟩ = none := by
          refine Option.eq_none_iff_forall_ne_some.2 fun c hc => nodup.1 ?_
          exact Assoc.mem_keys_of_get? (value?_eq_some_iff.1 hc)
        rw [settledField, hfirst]
        cases result with
        | error _ =>
            rw [ih f nodup.2, settledField_of_value?_eq_none hrest]
            split <;> rfl
        | ok c =>
            dsimp only
            rw [if_pos rfl, MemberEntry.withConstant]
            by_cases hconst : f.modifiers.isConst
            · rw [if_pos hconst, if_pos (by simpa using hconst), ih _ nodup.2,
                settledField_of_value?_eq_none (f := { f with value? := some c }) hrest]
              rfl
            · rw [if_neg hconst, if_neg (by simpa using hconst), ih _ nodup.2,
                settledField_of_value?_eq_none hrest]
      · have hfirst : value? ⟨(id, result) :: rest⟩ ⟨owner, f.name⟩ = value? ⟨rest⟩ ⟨owner, f.name⟩ := by
          simp [value?, Assoc.get?, hid]
        rw [settledField, hfirst, ← settledField, ← ih f nodup.2]
        congr 1
        cases result with
        | error _ => rfl
        | ok c =>
            dsimp only
            split
            · rename_i howner
              have hname : f.name ≠ id.name := fun hname => hid (by rw [howner, hname])
              rw [MemberEntry.withConstant, if_neg (by simp [hname])]
            · rfl

/-- What is no field has no value. -/
theorem settled_of_field?_eq_none (values : FieldValues) (owner : TypeKey) {m : MemberEntry}
    (hm : m.field? = none) : values.settled owner m = m := by
  have hconstant : ∀ name c, m.withConstant name c = m := by
    intro name c
    cases m with
    | field f => cases hm
    | property _ | method _ | event _ | nestedType _ _ => rfl
  unfold settled
  refine List.foldlRecOn values.entries _ (motive := (· = m)) rfl fun m' hm' entry _ => ?_
  subst hm'
  obtain ⟨id, result⟩ := entry
  cases result with
  | error _ => rfl
  | ok c =>
      dsimp only
      split
      · exact hconstant id.name c
      · rfl

theorem field?_settled {values : FieldValues} (nodup : values.keys.Nodup) (owner : TypeKey)
    (m : MemberEntry) :
    (values.settled owner m).field? = m.field?.map (values.settledField owner) := by
  cases m with
  | field f => rw [settled_field nodup]; rfl
  | property _ | method _ | event _ | nestedType _ _ => rw [settled_of_field?_eq_none _ _ rfl]; rfl

end FieldValues

/-! ### Fields of types -/

/-- The fields of a type are those it had and the added one. -/
theorem MemberEntry.fields_addTo (members : List MemberEntry) (m : MemberEntry) :
    (addTo members m).filterMap field? = members.filterMap field? ++ m.field?.toList := by
  have happend : (members ++ [m]).filterMap field? = members.filterMap field? ++ m.field?.toList := by
    rw [List.filterMap_append]
    cases h : m.field? <;> simp [h]
  unfold addTo
  split
  · rename_i p
    split
    · cases hreplace : replaceFirst? (isPartialProperty p.name) (withParts p) members with
      | none => exact happend
      | some replaced =>
          refine (filterMap_replaceFirst? field? (fun m => ?_) hreplace).trans (List.append_nil _).symm
          cases m <;> rfl
    · exact happend
  · split
    · rename_i hrepeated
      obtain ⟨m', -, hm'⟩ := List.any_eq_true.1 hrepeated
      have hnone : m.field? = none := by
        cases m with
        | field f => cases m' <;> cases hm'
        | property _ | method _ | event _ | nestedType _ _ => rfl
      rw [hnone]
      exact (List.append_nil _).symm
    · exact happend

theorem MemberEntry.fields_foldl_addTo (list members : List MemberEntry) :
    (list.foldl addTo members).filterMap field? = members.filterMap field? ++ list.filterMap field? := by
  induction list generalizing members with
  | nil => simp
  | cons m rest ih =>
      rw [List.foldl_cons, ih, fields_addTo, List.append_assoc]
      cases h : m.field? <;> simp [h]

/-- The first field with a name is the first one of the fields that have it. -/
theorem TypeEntry.fieldNamed?_eq_find? (e : TypeEntry) (name : String) :
    e.fieldNamed? name = (e.members.filterMap MemberEntry.field?).find? (·.name = name) := by
  rw [fieldNamed?, membersNamed]
  induction e.members with
  | nil => rfl
  | cons m rest ih =>
      cases m with
      | field f =>
          by_cases hname : (MemberEntry.field f).name = name
          · rw [List.filter_cons_of_pos (by simpa using hname)]
            exact (List.find?_cons_of_pos (p := fun f : FieldEntry => f.name = name)
              (decide_eq_true hname)).symm
          · rw [List.filter_cons_of_neg (by simpa using hname), ih]
            exact (List.find?_cons_of_neg (p := fun f : FieldEntry => f.name = name)
              (mt of_decide_eq_true hname)).symm
      | property _ | method _ | event _ | nestedType _ _ =>
          rw [List.filter_cons]
          split
          · exact ih
          · exact ih

namespace Registration

/-- Before the completed types get the values of their fields, no field has a value. -/
theorem field?_withMembers {trees : List SourceTree} {id : FieldId} {f : FieldEntry}
    (hf : ((ofTrees trees).withMembers ((ofTrees trees).bodies trees)).field? id = some f) :
    f.name = id.name ∧ f.value? = none := by
  obtain ⟨e, he, hfield⟩ := Option.bind_eq_some_iff.1 hf
  rw [TypeEntry.fieldNamed?_eq_find?] at hfield
  refine ⟨by simpa using List.find?_some hfield, ?_⟩
  rw [get?_withMembers] at he
  obtain ⟨old, hold, rfl⟩ := Option.map_eq_some_iff.1 he
  have hmem := List.mem_of_find?_eq_some hfield
  dsimp only at hmem
  rw [MemberEntry.fields_foldl_addTo, members_ofTrees trees id.owner old hold] at hmem
  obtain ⟨m, hm, hmf⟩ := List.mem_filterMap.1 ((List.nil_append _) ▸ hmem)
  obtain ⟨b, -, hb⟩ := List.mem_flatMap.1 hm
  obtain ⟨d, -, hd⟩ := List.mem_flatMap.1 hb
  cases d with
  | field d =>
      obtain ⟨v, -, rfl⟩ := List.mem_map.1 hd
      cases hmf
      rfl
  | property d =>
      obtain rfl := List.mem_singleton.1 hd
      cases hmf
  | method d =>
      obtain rfl := List.mem_singleton.1 hd
      cases hmf
  | event d =>
      obtain ⟨name, -, rfl⟩ := List.mem_map.1 hd
      cases hmf
  | type d =>
      obtain ⟨key, -, rfl⟩ := Option.map_eq_some_iff.1 (Option.mem_toList.1 hd)
      cases hmf
  | other span => cases hd

end Registration

namespace Completion

/-- A field of a completed type is the field that was declared, with its value. -/
theorem field?_ofRegistration (g : Registration) (trees : List SourceTree) (id : FieldId) :
    (ofRegistration g trees).registry.field? id = ((g.withMembers (g.bodies trees)).field? id).map
      (((g.constantFields (g.bodies trees)).evaluateAll .empty).settledField id.owner) := by
  have nodup := (g.constantFields (g.bodies trees)).nodup_evaluateAll
  have hmembers := members_ofRegistration g trees id.owner
  revert nodup hmembers
  generalize (g.constantFields (g.bodies trees)).evaluateAll .empty = values
  intro nodup hmembers
  have hfields : ∀ list : List MemberEntry,
      (list.map (values.settled id.owner)).filterMap MemberEntry.field? =
      (list.filterMap MemberEntry.field?).map (values.settledField id.owner) := by
    intro list
    rw [List.filterMap_map, List.map_filterMap]
    exact List.filterMap_congr fun m _ => FieldValues.field?_settled nodup id.owner m
  have hname : ∀ f, (values.settledField id.owner f).name = f.name := by
    intro f
    rw [FieldValues.settledField]
    split <;> rfl
  have hread : ∀ r : Registry, r.field? id = ((r.get? id.owner).map (·.members)).bind fun members =>
      (members.filterMap MemberEntry.field?).find? (·.name = id.name) := fun r => by
    rw [Option.bind_map]
    exact Option.bind_congr fun e _ => e.fieldNamed?_eq_find? id.name
  rw [hread, hread, hmembers, Option.bind_map, Option.map_bind]
  refine Option.bind_congr fun members _ => ?_
  have htest : (fun f : FieldEntry => decide (f.name = id.name)) ∘ values.settledField id.owner =
      fun f => decide (f.name = id.name) :=
      funext fun f => congrArg (fun name => decide (name = id.name)) (hname f)
  dsimp only [Function.comp_apply]
  rw [hfields, List.find?_map, htest]

/-- In completed types a name stands for the constant field that it stands for without values. -/
theorem namesConstant_iff (g : Registration) (trees : List SourceTree) (s : Scope) (n : NamedType)
    (id : FieldId) :
    (ofRegistration g trees).registry.NamesConstant s n id ↔
      (g.withMembers (g.bodies trees)).NamesConstant s n id := by
  have alike : (ofRegistration g trees).registry.Alike (g.withMembers (g.bodies trees)) :=
    (alike_ofRegistration g trees).trans (g.alike_withMembers _).symm
  have howner : ∀ name, (ofRegistration g trees).registry.fieldOwner? s name =
      (g.withMembers (g.bodies trees)).fieldOwner? s name := by
    intro name
    rw [Registry.fieldOwner?, Registry.fieldOwner?]
    simp only [field?_ofRegistration, Option.isSome_map]
  have hid : (ofRegistration g trees).registry.fieldId? s n =
      (g.withMembers (g.bodies trees)).fieldId? s n := by
    rw [Registry.fieldId?.eq_def, Registry.fieldId?.eq_def, alike.type]
    simp only [howner]
  have hmodifiers : ∀ values : FieldValues, ∀ f,
      (values.settledField id.owner f).modifiers = f.modifiers := by
    intro values f
    rw [FieldValues.settledField]
    split <;> rfl
  rw [Registry.NamesConstant, Registry.NamesConstant, hid, field?_ofRegistration]
  refine and_congr_right fun _ => ?_
  simp only [Option.map_eq_some_iff]
  constructor
  · rintro ⟨_, ⟨f, hf, rfl⟩, hconst⟩
    exact ⟨f, hf, hmodifiers _ f ▸ hconst⟩
  · rintro ⟨f, hf, hconst⟩
    exact ⟨_, ⟨f, hf, rfl⟩, (hmodifiers _ f).symm ▸ hconst⟩

/-- The constant fields of completed types.  No field has an initializer any more. -/
def constantFields (c : Completion) (scopes : List Scope) : ConstantFields where
  registry := c.registry
  initializers := ⟨scopes, .empty⟩

/-- The table of all values has exactly the values that constant fields have. -/
theorem value?_evaluateAll_iff {trees : List SourceTree} {id : FieldId} {f : FieldEntry}
    (hf : ((Registration.ofTrees trees).withMembers
      ((Registration.ofTrees trees).bodies trees)).field? id = some f) (c : Constant) :
    (((Registration.ofTrees trees).constantFields ((Registration.ofTrees trees).bodies trees)).evaluateAll
        .empty).value? id = some c ↔
      ((Registration.ofTrees trees).constantFields
        ((Registration.ofTrees trees).bodies trees)).HasValue id c := by
  rw [FieldValues.value?_eq_some_iff]
  constructor
  · exact fun known => (ConstantFields.agrees_evaluateAll ConstantFields.agrees_empty id _ known c).1 rfl
  · intro value
    cases value with
    | initializer pending scope derived =>
        exact (ConstantFields.get?_evaluateAll_iff ConstantFields.agrees_empty
          (Assoc.mem_keys_of_get? pending) c).2 (.initializer pending scope derived)
    | stored _ declared value =>
        obtain rfl := Option.some.inj (hf.symm.trans declared)
        cases (Registration.field?_withMembers hf).2.symm.trans value

/-- A constant field that a name stands for has the value that is stored with it. -/
theorem hasValue_stored_iff {trees : List SourceTree} (scopes : List Scope) {s : Scope} {n : NamedType}
    {id : FieldId} (names : (ofRegistration (.ofTrees trees) trees).registry.NamesConstant s n id)
    (c : Constant) :
    ((ofRegistration (.ofTrees trees) trees).constantFields scopes).HasValue id c ↔
      ((Registration.ofTrees trees).constantFields
        ((Registration.ofTrees trees).bodies trees)).HasValue id c := by
  obtain ⟨-, f, hf, hconst⟩ := (namesConstant_iff (.ofTrees trees) trees s n id).1 names
  obtain ⟨hname, hunset⟩ := Registration.field?_withMembers hf
  have hstored := field?_ofRegistration (.ofTrees trees) trees id
  rw [hf, Option.map_some, FieldValues.settledField, if_pos hconst, hunset, Option.or_none, hname] at hstored
  rw [← value?_evaluateAll_iff hf]
  constructor
  · intro value
    cases value with
    | initializer pending _ _ => cases pending
    | stored _ declared value =>
        obtain rfl := Option.some.inj (hstored.symm.trans declared)
        exact value
  · exact fun value => .stored rfl hstored value

/-- An expression over completed types has the value that it has over the initializers. -/
theorem derives_stored_iff (trees : List SourceTree) (scopes : List Scope) (s : Scope) (e : Expr)
    (c : Constant) :
    ((ofRegistration (.ofTrees trees) trees).constantFields scopes).Derives s e c ↔
      ((Registration.ofTrees trees).constantFields
        ((Registration.ofTrees trees).bodies trees)).Derives s e c := by
  induction e generalizing c with
  | literal value span =>
      constructor <;> (intro h; cases h with | literal constant => exact .literal constant)
  | nameOf target span =>
      constructor <;> (intro h; cases h with | nameOf last => exact .nameOf last)
  | name target =>
      constructor
      · intro h
        cases h with
        | name names field =>
            exact .name ((namesConstant_iff (.ofTrees trees) trees _ _ _).1 names)
              ((hasValue_stored_iff scopes names c).1 field)
      · intro h
        cases h with
        | name names field =>
            have names' := (namesConstant_iff (.ofTrees trees) trees _ _ _).2 names
            exact .name names' ((hasValue_stored_iff scopes names' c).2 field)
  | paren inner span ih =>
      constructor
      · intro h
        cases h with
        | paren value => exact .paren ((ih c).1 value)
      · intro h
        cases h with
        | paren value => exact .paren ((ih c).2 value)
  | negate operand span ih =>
      constructor
      · intro h
        cases h with
        | negate value negative => exact .negate ((ih _).1 value) negative
      · intro h
        cases h with
        | negate value negative => exact .negate ((ih _).2 value) negative
  | add lhs rhs span ihl ihr =>
      constructor
      · intro h
        cases h with
        | add left right sum => exact .add ((ihl _).1 left) ((ihr _).1 right) sum
      · intro h
        cases h with
        | add left right sum => exact .add ((ihl _).2 left) ((ihr _).2 right) sum
  | unsupported span => constructor <;> (intro h; cases h)

/-- When the types of trees are completed, an expression in a scope has a value by the values that are stored
with fields exactly if it has that value by the initializers, whatever either evaluator was asked before. -/
theorem evaluate_stored_iff (trees : List SourceTree) (scopes : List Scope)
    (before during : List ConstantFields.Call) (s : Scope) (source : String) (e : Expr) (c : Constant) :
    let g := Registration.ofTrees trees
    let initial := g.constantFields (g.bodies trees)
    let completed := (ofRegistration g trees).constantFields scopes
    ((completed.evaluate s source e).run (completed.after before)).1 = .ok c ↔
      ((initial.evaluate s source e).run (initial.after during)).1 = .ok c := by
  intro g initial completed
  have hcompleted := (completed.computes_evaluate s source e _ (ConstantFields.agrees_after before)).result c
  have hinitial := (initial.computes_evaluate s source e _ (ConstantFields.agrees_after during)).result c
  rw [hcompleted, hinitial]
  exact derives_stored_iff trees scopes s e c

end Completion

end Graft
