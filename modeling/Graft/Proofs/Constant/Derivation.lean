/-
Module: Graft.Proofs.Constant.Derivation
Purpose: What the values of expressions and constant fields are without a table of known values,
  and the agreement of the evaluator with it.
Main exports: ConstantFields.Derives, ConstantFields.HasValue, ConstantFields.Agrees,
  ConstantFields.computes_valueDuring, ConstantFields.answers_after_eq_ok_iff

A value is derived by finitely many rules.  A field that needs its own value has no derivation, since
every name in an initializer needs a derivation of its own.  This is why an error that is found while
other fields wait may be kept for good: a field that is asked for while it waits for itself has no
value in any order of evaluation.
-/
import Mathlib.Logic.Relation
import Graft.Constant.Evaluation

namespace Graft

/-! ### Derivations -/

/-- In a scope a name stands for a constant field. -/
def Registry.NamesConstant (r : Registry) (s : Scope) (n : NamedType) (id : FieldId) : Prop :=
  r.fieldId? s n = some id ∧ ∃ field, r.field? id = some field ∧ field.modifiers.isConst = true

namespace ConstantFields

mutual

/-- An expression in a scope has a value. -/
inductive Derives (p : ConstantFields) : Scope → Expr → Constant → Prop where
  | literal {s : Scope} {value : LiteralValue} {span : Span} {c : Constant}
      (constant : value.constant? = some c) : Derives p s (.literal value span) c
  | nameOf {s : Scope} {target : NamedType} {span : Span} {segment : TypeSegment}
      (last : target.last? = some segment) :
      Derives p s (.nameOf target span) (.string segment.name.name)
  | name {s : Scope} {target : NamedType} {id : FieldId} {c : Constant}
      (names : p.registry.NamesConstant s target id) (field : HasValue p id c) :
      Derives p s (.name target) c
  | paren {s : Scope} {inner : Expr} {span : Span} {c : Constant}
      (value : Derives p s inner c) : Derives p s (.paren inner span) c
  | negate {s : Scope} {operand : Expr} {span : Span} {a c : Constant}
      (value : Derives p s operand a) (negative : a.negative? = some c) :
      Derives p s (.negate operand span) c
  | add {s : Scope} {lhs rhs : Expr} {span : Span} {a b c : Constant}
      (left : Derives p s lhs a) (right : Derives p s rhs b) (sum : a.sum? b = some c) :
      Derives p s (.add lhs rhs span) c

/-- A constant field has a value: that of its initializer in the initializer's scope or, if it has no
initializer, the one that is stored with it. -/
inductive HasValue (p : ConstantFields) : FieldId → Constant → Prop where
  | initializer {id : FieldId} {init : Initializer} {s : Scope} {c : Constant}
      (pending : p.initializers.get? id = some init)
      (scope : p.initializers.scopeOf? init = some s) (value : Derives p s init.expr c) :
      HasValue p id c
  | stored {id : FieldId} {field : FieldEntry} {c : Constant}
      (settled : p.initializers.get? id = none) (declared : p.registry.field? id = some field)
      (value : field.value? = some c) : HasValue p id c

end

end ConstantFields

/-- The names whose values an expression needs. -/
def Expr.neededNames : Expr → List NamedType
  | .name target => [target]
  | .paren inner _ => inner.neededNames
  | .negate operand _ => operand.neededNames
  | .add lhs rhs _ => lhs.neededNames ++ rhs.neededNames
  | .literal .. | .nameOf .. | .unsupported .. => []

/-- The value of an expression depends on what the needed names stand for and on the values of
fields. -/
theorem Evaluation.ofExpr_congr {r r' : Registry} {s s' : Scope} {source : String}
    {field field' : FieldId → Evaluation Constant} {e : Expr} (hfield : field = field')
    (hnames : ∀ n ∈ e.neededNames, r.constantField s source n = r'.constantField s' source n) :
    Evaluation.ofExpr r s source field e = Evaluation.ofExpr r' s' source field' e := by
  subst hfield
  induction e with
  | literal | nameOf | unsupported => rfl
  | name target =>
      rw [Evaluation.ofExpr, Evaluation.ofExpr, hnames target (List.mem_singleton.2 rfl)]
  | paren inner _ ih => rw [Evaluation.ofExpr, Evaluation.ofExpr, ih hnames]
  | negate operand _ ih => rw [Evaluation.ofExpr, Evaluation.ofExpr, ih hnames]
  | add lhs rhs _ ihl ihr =>
      rw [Evaluation.ofExpr, Evaluation.ofExpr,
        ihl fun n hn => hnames n (List.mem_append_left _ hn),
        ihr fun n hn => hnames n (List.mem_append_right _ hn)]

namespace ConstantFields

variable {p : ConstantFields}

/-- The initializer of one field names the other one. -/
def Needs (p : ConstantFields) (id other : FieldId) : Prop :=
  ∃ init s n, p.initializers.get? id = some init ∧ p.initializers.scopeOf? init = some s ∧
    n ∈ init.expr.neededNames ∧ p.registry.NamesConstant s n other

/-- A field that needs only what has values is reached from nowhere by an endless chain. -/
abbrev Grounded (p : ConstantFields) (id : FieldId) : Prop :=
  Acc (fun other id => p.Needs id other) id

mutual

/-- What a derivable expression needs is grounded. -/
theorem grounded_of_derives {s : Scope} {e : Expr} {c : Constant} :
    p.Derives s e c → ∀ n ∈ e.neededNames, ∀ id, p.registry.NamesConstant s n id → p.Grounded id
  | .literal _, n, hn, _, _ => by simp [Expr.neededNames] at hn
  | .nameOf _, n, hn, _, _ => by simp [Expr.neededNames] at hn
  | .name names field, n, hn, id, hid => by
      obtain rfl : n = _ := by simpa [Expr.neededNames] using hn
      obtain rfl : _ = id := Option.some.inj (names.1.symm.trans hid.1)
      exact grounded_of_hasValue field
  | .paren value, n, hn, id, hid => grounded_of_derives value n hn id hid
  | .negate value _, n, hn, id, hid => grounded_of_derives value n hn id hid
  | .add left right _, n, hn, id, hid => by
      rcases List.mem_append.1 hn with hleft | hright
      · exact grounded_of_derives left n hleft id hid
      · exact grounded_of_derives right n hright id hid

/-- A field with a value is grounded. -/
theorem grounded_of_hasValue {id : FieldId} {c : Constant} : p.HasValue id c → p.Grounded id
  | .initializer pending scope value => by
      refine Acc.intro _ fun other ⟨init, s, n, hinit, hscope, hn, hother⟩ => ?_
      obtain rfl := Option.some.inj (pending.symm.trans hinit)
      obtain rfl := Option.some.inj (scope.symm.trans hscope)
      exact grounded_of_derives value n hn other hother
  | .stored settled _ _ => by
      refine Acc.intro _ fun other ⟨init, _, _, hinit, _⟩ => ?_
      rw [settled] at hinit
      cases hinit

end

private theorem not_rel_of_acc {α : Type} {r : α → α → Prop} {a : α} (h : Acc r a) : ¬r a a := by
  induction h with
  | intro a _ ih => exact fun self => ih a self self

/-- A field that needs its own value has none. -/
theorem not_hasValue_of_cyclic {id : FieldId} (cyclic : Relation.TransGen p.Needs id id)
    (c : Constant) : ¬p.HasValue id c := fun value =>
  not_rel_of_acc (grounded_of_hasValue value).transGen (Relation.transGen_swap.2 cyclic)

/-! ### The evaluator -/

/-- A table of known values holds for each field in it the value it has, or an error if it has
none. -/
def Agrees (p : ConstantFields) (values : FieldValues) : Prop :=
  ∀ id known, values.get? id = some known → ∀ c, known = .ok c ↔ p.HasValue id c

/-- Nothing is known at first. -/
theorem agrees_empty : p.Agrees .empty := by
  intro id known h
  cases h

/-- One more field is known. -/
theorem Agrees.insert {values : FieldValues} (agrees : p.Agrees values) {id : FieldId}
    {result : Except ConstantError Constant} (hresult : ∀ c, result = .ok c ↔ p.HasValue id c) :
    p.Agrees (values.insert id result) := by
  intro other known h
  rw [Assoc.get?_insert] at h
  split at h
  · rename_i same
    obtain rfl := same
    obtain rfl := Option.some.inj h
    exact hresult
  · exact agrees other known h

/-- A computation that starts with the table `values` finds the value that there is, or an error if
there is none, and leaves a table that agrees and knows no field less. -/
structure Finds (p : ConstantFields) (holds : Constant → Prop) (values : FieldValues)
    (outcome : Except ConstantError Constant × FieldValues) : Prop where
  result : ∀ c, outcome.1 = .ok c ↔ holds c
  agrees : p.Agrees outcome.2
  keeps : ∀ id, (values.get? id).isSome → (outcome.2.get? id).isSome

/-- A computation finds what there is to find, whatever table that agrees it starts with. -/
def Computes (p : ConstantFields) (m : Evaluation Constant) (holds : Constant → Prop) : Prop :=
  ∀ values, p.Agrees values → p.Finds holds values (m.run values)

/-- What is found under one description is found under another one. -/
theorem Computes.congr {m : Evaluation Constant} {holds holds' : Constant → Prop}
    (hm : p.Computes m holds) (same : ∀ c, holds c ↔ holds' c) : p.Computes m holds' := by
  intro values agrees
  have found := hm values agrees
  exact ⟨fun c => (found.result c).trans (same c), found.agrees, found.keeps⟩

/-- A computation that does not look at the table. -/
theorem computes_of_const {m : Evaluation Constant} {result : Except ConstantError Constant}
    {holds : Constant → Prop} (hm : ∀ values, m.run values = (result, values))
    (hresult : ∀ c, result = .ok c ↔ holds c) : p.Computes m holds := by
  intro values agrees
  rw [hm]
  exact ⟨hresult, agrees, fun _ h => h⟩

/-- A computation that goes on with the value it has found.  If there is none it stops. -/
theorem Computes.bind {m : Evaluation Constant} {f : Constant → Evaluation Constant}
    {first : Constant → Prop} {next : Constant → Constant → Prop} (hm : p.Computes m first)
    (hf : ∀ a, p.Computes (f a) (next a)) :
    p.Computes (m >>= f) fun c => ∃ a, first a ∧ next a c := by
  intro values agrees
  have found := hm values agrees
  have hrun : (m >>= f).run values =
      ExceptT.bindCont f (m.run values).1 (m.run values).2 := rfl
  rw [hrun]
  revert found
  rcases m.run values with ⟨_ | a, after⟩ <;> intro found
  · refine ⟨fun c => ⟨fun h => (nomatch h), ?_⟩, found.agrees, found.keeps⟩
    rintro ⟨a, ha, -⟩
    cases (found.result a).2 ha
  · have goesOn := hf a after found.agrees
    refine ⟨fun c => ⟨fun h => ⟨a, (found.result a).1 rfl, (goesOn.result c).1 h⟩, ?_⟩,
      goesOn.agrees, fun id h => goesOn.keeps id (found.keeps id h)⟩
    rintro ⟨b, hb, hc⟩
    obtain rfl : a = b := by simpa using (found.result b).2 hb
    exact (goesOn.result c).2 hc

end ConstantFields

/-- A name stands for a constant field exactly if looking it up says so. -/
theorem Registry.constantField_eq_ok_iff {r : Registry} {s : Scope} {source : String}
    {n : NamedType} {id : FieldId} :
    r.constantField s source n = .ok id ↔ r.NamesConstant s n id := by
  unfold Registry.constantField Registry.NamesConstant
  dsimp only
  split
  · rename_i h
    simp [h]
  · rename_i other h
    split
    · rename_i hfield
      simp only [reduceCtorEq, h, Option.some.injEq, false_iff]
      rintro ⟨rfl, field, hfield', -⟩
      rw [hfield] at hfield'
      cases hfield'
    · rename_i field hfield
      split
      · rename_i hconst
        simp only [Except.ok.injEq, h, Option.some.injEq]
        exact ⟨fun same => ⟨same, field, same ▸ hfield, hconst⟩, And.left⟩
      · rename_i hconst
        simp only [reduceCtorEq, h, Option.some.injEq, false_iff]
        rintro ⟨rfl, field', hfield', hconst'⟩
        obtain rfl := Option.some.inj (hfield.symm.trans hfield')
        exact hconst hconst'

namespace ConstantFields

variable {p : ConstantFields}

/-- The value of an expression is found if those of the fields that it names are. -/
theorem computes_ofExpr {s : Scope} {source : String} {field : FieldId → Evaluation Constant}
    (e : Expr)
    (hfield : ∀ n ∈ e.neededNames, ∀ id, p.registry.NamesConstant s n id →
      p.Computes (field id) (p.HasValue id)) :
    p.Computes (Evaluation.ofExpr p.registry s source field e) (p.Derives s e) := by
  induction e with
  | literal value span =>
      unfold Evaluation.ofExpr
      cases h : value.constant? with
      | none =>
          refine computes_of_const (fun _ => rfl) fun c => ⟨fun hc => (nomatch hc), fun derived => ?_⟩
          cases derived with
          | literal hc => cases h.symm.trans hc
      | some constant =>
          refine computes_of_const (fun _ => rfl) fun c => ⟨fun hc => ?_, fun derived => ?_⟩
          · obtain rfl := Except.ok.inj hc
            exact .literal h
          · cases derived with
            | literal hc => exact congrArg Except.ok (Option.some.inj (h.symm.trans hc))
  | name target =>
      unfold Evaluation.ofExpr
      cases h : p.registry.constantField s source target with
      | error e =>
          refine computes_of_const (fun _ => rfl) fun c => ⟨fun hc => (nomatch hc), fun derived => ?_⟩
          cases derived with
          | name names _ => cases h.symm.trans (Registry.constantField_eq_ok_iff.2 names)
      | ok id =>
          have names := Registry.constantField_eq_ok_iff.1 h
          have value := hfield target (by simp [Expr.neededNames]) id names
          refine value.congr fun c => ⟨.name names, fun derived => ?_⟩
          cases derived with
          | name names' value =>
              obtain rfl := Option.some.inj (names.1.symm.trans names'.1)
              exact value
  | nameOf target span =>
      unfold Evaluation.ofExpr
      cases h : target.last? with
      | none =>
          refine computes_of_const (fun _ => rfl) fun c => ⟨fun hc => (nomatch hc), fun derived => ?_⟩
          cases derived with
          | nameOf hlast => cases h.symm.trans hlast
      | some segment =>
          refine computes_of_const (fun _ => rfl) fun c => ⟨fun hc => ?_, fun derived => ?_⟩
          · obtain rfl := Except.ok.inj hc
            exact .nameOf h
          · cases derived with
            | nameOf hlast =>
                obtain rfl := Option.some.inj (h.symm.trans hlast)
                rfl
  | paren inner span ih =>
      refine (ih hfield).congr fun c => ⟨.paren, fun derived => ?_⟩
      cases derived with
      | paren value => exact value
  | negate operand span ih =>
      have negative (a : Constant) :
          p.Computes (liftM a.negate) (fun c => a.negative? = some c) := by
        refine computes_of_const (fun _ => rfl) fun c => ?_
        unfold Constant.negate
        cases a.negative? <;> simp
      refine ((ih hfield).bind negative).congr fun c => ⟨?_, fun derived => ?_⟩
      · rintro ⟨a, value, h⟩
        exact .negate value h
      · cases derived with
        | negate value h => exact ⟨_, value, h⟩
  | add lhs rhs span ihl ihr =>
      have left := ihl fun n hn => hfield n (List.mem_append_left _ hn)
      have right := ihr fun n hn => hfield n (List.mem_append_right _ hn)
      have sum (a b : Constant) : p.Computes (liftM (a.add b)) (fun c => a.sum? b = some c) := by
        refine computes_of_const (fun _ => rfl) fun c => ?_
        unfold Constant.add
        cases a.sum? b <;> simp
      refine (left.bind fun a => right.bind (sum a)).congr fun c => ⟨?_, fun derived => ?_⟩
      · rintro ⟨a, hl, b, hr, h⟩
        exact .add hl hr h
      · cases derived with
        | add hl hr h => exact ⟨_, hl, _, hr, h⟩
  | unsupported span =>
      unfold Evaluation.ofExpr
      exact computes_of_const (fun _ => rfl) fun c =>
        ⟨fun hc => (nomatch hc), fun derived => (nomatch derived)⟩

/-! ### Fields -/

/-- The value of a field without an initializer is the stored one. -/
theorem stored_eq_ok_iff {id : FieldId} (settled : p.initializers.get? id = none) (c : Constant) :
    p.stored id = .ok c ↔ p.HasValue id c := by
  unfold stored
  constructor
  · intro h
    split at h
    · rename_i value hvalue
      obtain ⟨field, hfield, hvalue⟩ := Option.bind_eq_some_iff.1 hvalue
      obtain rfl := Except.ok.inj h
      exact .stored settled hfield hvalue
    · cases h
  · intro value
    cases value with
    | initializer pending _ _ => cases settled.symm.trans pending
    | stored _ hfield hvalue => simp [hfield, hvalue]

/-- The value of a field with an initializer is that of the initializer. -/
theorem derives_iff_hasValue {id : FieldId} {init : Initializer} {s : Scope}
    (pending : p.initializers.get? id = some init)
    (scope : p.initializers.scopeOf? init = some s) (c : Constant) :
    p.Derives s init.expr c ↔ p.HasValue id c := by
  refine ⟨.initializer pending scope, fun value => ?_⟩
  cases value with
  | initializer pending' scope' value =>
      obtain rfl := Option.some.inj (pending.symm.trans pending')
      obtain rfl := Option.some.inj (scope.symm.trans scope')
      exact value
  | stored settled _ _ => cases pending.symm.trans settled

/-- A field whose initializer stands in no scope has no value. -/
theorem not_hasValue_of_noScope {id : FieldId} {init : Initializer}
    (pending : p.initializers.get? id = some init)
    (missing : p.initializers.scopeOf? init = none) (c : Constant) : ¬p.HasValue id c := by
  intro value
  cases value with
  | initializer pending' scope _ =>
      obtain rfl := Option.some.inj (pending.symm.trans pending')
      cases missing.symm.trans scope
  | stored settled _ _ => cases pending.symm.trans settled

section

variable {waiting : List FieldId} {id : FieldId} {values : FieldValues}

theorem valueDuring_of_settled (unknown : values.get? id = none) (new : id ∉ waiting)
    (settled : p.initializers.get? id = none) :
    p.valueDuring waiting id values = (p.stored id, values) := by
  rw [valueDuring, unknown]
  simp only [new, dite_false]
  split
  · rfl
  · rename_i init pending
    cases settled.symm.trans pending

theorem valueDuring_of_noScope {init : Initializer} (unknown : values.get? id = none)
    (new : id ∉ waiting) (pending : p.initializers.get? id = some init)
    (missing : p.initializers.scopeOf? init = none) :
    p.valueDuring waiting id values =
      (.error (.unresolved (p.registry.fieldText id)), values) := by
  rw [valueDuring, unknown]
  simp only [new, dite_false]
  split
  · rename_i settled
    cases settled.symm.trans pending
  · rename_i init' pending'
    obtain rfl := Option.some.inj (pending.symm.trans pending')
    rw [missing]

theorem valueDuring_of_pending {init : Initializer} {s : Scope}
    {outcome : Except ConstantError Constant × FieldValues} (unknown : values.get? id = none)
    (new : id ∉ waiting) (pending : p.initializers.get? id = some init)
    (scope : p.initializers.scopeOf? init = some s)
    (ran : (Evaluation.ofExpr p.registry s init.source
      (fun other => p.valueDuring (id :: waiting) other) init.expr).run values = outcome) :
    p.valueDuring waiting id values = (outcome.1, outcome.2.insert id outcome.1) := by
  rw [valueDuring, unknown]
  simp only [new, dite_false]
  split
  · rename_i settled
    cases settled.symm.trans pending
  · rename_i init' pending'
    obtain rfl := Option.some.inj (pending.symm.trans pending')
    rw [scope, ← ran]
    rfl

end

/-- The value of a field is found while others wait for it, if all that wait need it. -/
theorem computes_valueDuring {waiting : List FieldId} {id : FieldId}
    (needed : ∀ w ∈ waiting, Relation.TransGen p.Needs w id) :
    p.Computes (p.valueDuring waiting id) (p.HasValue id) := by
  intro values agrees
  change p.Finds (p.HasValue id) values (p.valueDuring waiting id values)
  induction waiting, id, values using valueDuring.induct p with
  | case1 waiting id values known h =>
      rw [valueDuring, h]
      exact ⟨agrees id known h, agrees, fun _ h => h⟩
  | case2 waiting id values unknown waits =>
      rw [valueDuring, unknown]
      simp only [waits, dite_true]
      refine ⟨fun c => ⟨fun hc => (nomatch hc), fun value => ?_⟩, agrees, fun _ h => h⟩
      exact absurd value (not_hasValue_of_cyclic (needed id waits) c)
  | case3 waiting id values unknown new settled =>
      rw [valueDuring_of_settled unknown new settled]
      exact ⟨stored_eq_ok_iff settled, agrees, fun _ h => h⟩
  | case4 waiting id values unknown new init pending missing =>
      rw [valueDuring_of_noScope unknown new pending missing]
      refine ⟨fun c => ⟨fun hc => (nomatch hc), fun value => ?_⟩, agrees, fun _ h => h⟩
      exact absurd value (not_hasValue_of_noScope pending missing c)
  | case5 waiting id values unknown new init pending scope hscope result after ran ih =>
      -- What the initializer names is needed by all that wait, and now by `id`.
      have named : ∀ n ∈ init.expr.neededNames, ∀ other,
          p.registry.NamesConstant scope n other →
          p.Computes (p.valueDuring (id :: waiting) other) (p.HasValue other) := by
        intro n hn other names values agrees
        have step : p.Needs id other := ⟨init, scope, n, pending, hscope, hn, names⟩
        refine ih other values (fun w hw => ?_) agrees
        rcases List.mem_cons.1 hw with rfl | hw
        · exact .single step
        · exact (needed w hw).tail step
      have found : p.Finds (p.Derives scope init.expr) values (result, after) := by
        rw [← ran]
        exact computes_ofExpr init.expr named values agrees
      have hresult : ∀ c, result = .ok c ↔ p.HasValue id c := fun c =>
        (found.result c).trans (derives_iff_hasValue pending hscope c)
      rw [valueDuring_of_pending unknown new pending hscope ran]
      refine ⟨hresult, found.agrees.insert hresult, fun other h => ?_⟩
      rw [Assoc.get?_insert]
      split
      · rfl
      · exact found.keeps other h

/-- The value of a field is found. -/
theorem computes_value (id : FieldId) : p.Computes (p.value id) (p.HasValue id) :=
  computes_valueDuring fun _ hw => (nomatch hw)

/-- The value of an expression is found. -/
theorem computes_evaluate (s : Scope) (source : String) (e : Expr) :
    p.Computes (p.evaluate s source e) (p.Derives s e) :=
  computes_ofExpr e fun _ _ id _ => computes_value id

/-- An expression has one value. -/
theorem Derives.unique {s : Scope} {e : Expr} {a b : Constant} (h : p.Derives s e a) (h' : p.Derives s e b) :
    a = b := by
  -- Evaluation from any table that agrees finds both.
  have found := (computes_evaluate (p := p) s "" e _ agrees_empty).result
  exact Except.ok.inj (((found a).2 h).symm.trans ((found b).2 h'))

/-- A field with an initializer and a value is known once it has been asked for. -/
theorem isSome_get?_of_hasValue {values : FieldValues} {id : FieldId} {c : Constant}
    (pending : id ∈ p.initializers.fields) (value : p.HasValue id c) :
    (((p.value id).run values).2.get? id).isSome := by
  change ((p.valueDuring [] id values).2.get? id).isSome
  cases known : values.get? id with
  | some result =>
      rw [valueDuring, known]
      simp [known]
  | none =>
      cases value with
      | stored settled _ _ =>
          have := Assoc.get?_isSome_of_mem_keys pending
          rw [show p.initializers.byField.get? id = none from settled] at this
          cases this
      | initializer pending scope _ =>
          rw [valueDuring_of_pending known (by simp) pending scope rfl]
          simp [Assoc.get?_insert]

/-- After all fields are evaluated the table agrees, knows what it knew, and knows every one of the
fields that has a value. -/
theorem agrees_foldl (ids : List FieldId) {values : FieldValues} (agrees : p.Agrees values)
    (pending : ∀ id ∈ ids, id ∈ p.initializers.fields) :
    let after := ids.foldl (fun values id => ((p.value id).run values).2) values
    p.Agrees after ∧ (∀ id, (values.get? id).isSome → (after.get? id).isSome) ∧
      ∀ id ∈ ids, ∀ c, p.HasValue id c → (after.get? id).isSome := by
  induction ids generalizing values with
  | nil => exact ⟨agrees, fun _ h => h, fun _ h => (nomatch h)⟩
  | cons id rest ih =>
      have found := computes_value id values agrees
      obtain ⟨agrees', keeps, knows⟩ :=
        ih found.agrees fun other h => pending other (List.mem_cons_of_mem _ h)
      refine ⟨agrees', fun other h => keeps other (found.keeps other h), fun other h c value => ?_⟩
      rcases List.mem_cons.1 h with rfl | h
      · exact keeps other (isSome_get?_of_hasValue (pending other h) value)
      · exact knows other h c value

/-- Evaluating all fields leaves a table that agrees. -/
theorem agrees_evaluateAll {values : FieldValues} (agrees : p.Agrees values) :
    p.Agrees (p.evaluateAll values) :=
  (agrees_foldl p.inOrder agrees fun _ h => List.mem_mergeSort.1 h).1

/-- After all fields are evaluated the value of each is in the table. -/
theorem get?_evaluateAll_iff {values : FieldValues} (agrees : p.Agrees values) {id : FieldId}
    (pending : id ∈ p.initializers.fields) (c : Constant) :
    (p.evaluateAll values).get? id = some (.ok c) ↔ p.HasValue id c := by
  obtain ⟨agrees', -, knows⟩ :=
    agrees_foldl p.inOrder agrees fun _ h => List.mem_mergeSort.1 h
  constructor
  · exact fun h => (agrees' id _ h c).1 rfl
  · intro value
    obtain ⟨known, h⟩ :=
      Option.isSome_iff_exists.1 (knows id (List.mem_mergeSort.2 pending) c value)
    exact h.trans (congrArg some ((agrees' id known h c).2 value))

/-! ### Calls in any order -/

/-- What may be asked of an evaluator. -/
inductive Call where
  | field (id : FieldId)
  | expression (scope : Scope) (source : String) (e : Expr)
  | all

/-- What is known after a call. -/
def Call.run (p : ConstantFields) (values : FieldValues) : Call → FieldValues
  | field id => ((p.value id).run values).2
  | expression s source e => ((p.evaluate s source e).run values).2
  | all => p.evaluateAll values

/-- What is known after calls of a new evaluator. -/
def after (p : ConstantFields) (calls : List Call) : FieldValues := calls.foldl (Call.run p) .empty

/-- A call leaves a table that agrees. -/
theorem Agrees.call {values : FieldValues} (agrees : p.Agrees values) (call : Call) :
    p.Agrees (call.run p values) := by
  cases call with
  | field id => exact (computes_value id values agrees).agrees
  | expression s source e => exact (computes_evaluate s source e values agrees).agrees
  | all => exact agrees_evaluateAll agrees

/-- After any calls the table agrees. -/
theorem agrees_after (calls : List Call) : p.Agrees (p.after calls) := by
  have run : ∀ values, p.Agrees values → p.Agrees (calls.foldl (Call.run p) values) := by
    induction calls with
    | nil => exact fun _ agrees => agrees
    | cons call rest ih => exact fun values agrees => ih _ (agrees.call call)
  exact run _ agrees_empty

/-- Whatever was asked before and in whatever order, a field and an expression are answered with
their values if they have any and with errors if not; and once all fields are evaluated exactly those
that have values are known with them. -/
theorem answers_after_eq_ok_iff (p : ConstantFields) (calls : List Call) :
    (∀ id c, ((p.value id).run (p.after calls)).1 = .ok c ↔ p.HasValue id c) ∧
    (∀ s source e c, ((p.evaluate s source e).run (p.after calls)).1 = .ok c ↔ p.Derives s e c) ∧
    (∀ id known, (p.after calls).get? id = some known → ∀ c, known = .ok c ↔ p.HasValue id c) ∧
    ∀ id ∈ p.initializers.fields, ∀ c,
      (p.evaluateAll (p.after calls)).get? id = some (.ok c) ↔ p.HasValue id c :=
  ⟨fun id => (computes_value id _ (agrees_after calls)).result,
    fun s source e => (computes_evaluate s source e _ (agrees_after calls)).result,
    agrees_after calls,
    fun _ pending => get?_evaluateAll_iff (agrees_after calls) pending⟩

end ConstantFields

end Graft
