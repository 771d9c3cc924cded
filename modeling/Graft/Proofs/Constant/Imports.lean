/-
Module: Graft.Proofs.Constant.Imports
Purpose: Whether the order of imports matters to the values of constants.
Main statements: Registry.oneOwner_iff, ConstantFields.importOrder_irrelevant,
  ConstantFields.importOrder_decides_value

Names of types do not depend on the order of imports.  A simple name of a constant field does: of two
types that one level imports for their members and that both declare the field, the first one is
taken, where a name of a type would be ambiguous.
-/
import Graft.Proofs.Constant.Derivation
import Graft.Proofs.Lookup.Imports
import Graft.Proofs.Lookup.Levels

namespace Graft

namespace Registry

variable {r : Registry} {s s' : Scope} {name : String}

/-- A type declares a field with a name. -/
def declaresField (r : Registry) (name : String) (key : TypeKey) : Bool :=
  (r.field? ⟨key, name⟩).isSome

/-- The types among which a simple name of a field is looked for have one that comes first however
imports are ordered: a type around the point declares the field, or of the static imports of the
innermost level that has such a type only one declares it. -/
def OneOwner (r : Registry) (s : Scope) (name : String) : Prop :=
  s.types.find? (r.declaresField name) = none →
    ∀ level, s.levels.find? (·.staticImports.any (r.declaresField name)) = some level →
      ∀ a ∈ level.staticImports, ∀ b ∈ level.staticImports,
        r.declaresField name a = true → r.declaresField name b = true → a = b

/-- A field is looked for in the types around the point and then level by level. -/
theorem fieldOwner?_eq (r : Registry) (s : Scope) (name : String) :
    r.fieldOwner? s name = (s.types.find? (r.declaresField name)).or
      (s.levels.findSome? fun level => level.staticImports.find? (r.declaresField name)) := by
  rw [fieldOwner?, List.find?_append, List.find?_flatMap]
  rfl

/-- Of the levels only the innermost one that imports an owner counts, and there any owner is the
one. -/
theorem importedOwner_eq {levels levels' : List ScopeLevel}
    (h : List.Forall₂ ScopeLevel.SameImports levels levels') {declares : TypeKey → Bool}
    (hone : ∀ level, levels.find? (·.staticImports.any declares) = some level →
      ∀ a ∈ level.staticImports, ∀ b ∈ level.staticImports,
        declares a = true → declares b = true → a = b) :
    levels.findSome? (·.staticImports.find? declares) =
      levels'.findSome? (·.staticImports.find? declares) := by
  induction h with
  | nil => rfl
  | @cons level level' levels levels' hlevel _ ih =>
      rw [List.findSome?_cons, List.findSome?_cons]
      cases hfind : level.staticImports.find? declares with
      | none =>
          have hnone : ∀ key ∈ level.staticImports, ¬ declares key = true := List.find?_eq_none.1 hfind
          have hnone' : level'.staticImports.find? declares = none :=
            List.find?_eq_none.2 fun key hkey => hnone key ((hlevel.staticImports key).2 hkey)
          have hany : level.staticImports.any declares = false :=
            List.any_eq_false.2 hnone
          rw [hnone']
          exact ih fun inner hinner => hone inner (by rw [List.find?_cons, hany]; exact hinner)
      | some a =>
          have ha : a ∈ level.staticImports := List.mem_of_find?_eq_some hfind
          have hdeclares : declares a = true := List.find?_some hfind
          have hany : level.staticImports.any declares = true := List.any_eq_true.2 ⟨a, ha, hdeclares⟩
          cases hfind' : level'.staticImports.find? declares with
          | none =>
              exact absurd hdeclares
                (List.find?_eq_none.1 hfind' a ((hlevel.staticImports a).1 ha))
          | some b =>
              have hb := (hlevel.staticImports b).2 (List.mem_of_find?_eq_some hfind')
              have hfirst : (level :: levels).find? (·.staticImports.any declares) = some level := by
                rw [List.find?_cons, hany]
              rw [hone level hfirst a ha b hb hdeclares (List.find?_some hfind')]

theorem fieldOwner?_eq_of_oneOwner (h : s.SameImports s') (hone : r.OneOwner s name) :
    r.fieldOwner? s name = r.fieldOwner? s' name := by
  rw [fieldOwner?_eq, fieldOwner?_eq, ← h.types]
  cases htypes : s.types.find? (r.declaresField name) with
  | some key => rfl
  | none => rw [importedOwner_eq h.levels (hone htypes)]

/-- Any owner among the static imports of the innermost level that has one can come first. -/
theorem exists_fieldOwner?_eq {level : ScopeLevel} {a : TypeKey}
    (htypes : s.types.find? (r.declaresField name) = none)
    (hlevel : s.levels.find? (·.staticImports.any (r.declaresField name)) = some level)
    (ha : a ∈ level.staticImports) (hdeclares : r.declaresField name a = true) :
    ∃ s' : Scope, s.SameImports s' ∧ r.fieldOwner? s' name = some a := by
  obtain ⟨-, inner, outer, hlevels, hinner⟩ := List.find?_eq_some_iff_append.1 hlevel
  let moved : ScopeLevel := { level with staticImports := a :: level.staticImports }
  have hmoved : level.SameImports moved := {
    space := rfl
    imports := fun _ => .rfl
    staticImports := fun key => by
      refine ⟨List.mem_cons_of_mem a, fun hkey => ?_⟩
      rcases List.mem_cons.1 hkey with rfl | hkey
      · exact ha
      · exact hkey
    aliases := rfl }
  have hrest : ∀ levels : List ScopeLevel, List.Forall₂ ScopeLevel.SameImports levels levels :=
    fun levels => List.forall₂_same.2 fun l _ => .refl l
  refine ⟨⟨s.types, inner ++ moved :: outer⟩, ⟨rfl, ?_⟩, ?_⟩
  · rw [hlevels]
    exact List.rel_append (hrest inner) (.cons hmoved (hrest outer))
  · have hnone : inner.findSome? (·.staticImports.find? (r.declaresField name)) = none := by
      refine List.findSome?_eq_none_iff.2 fun l hl => List.find?_eq_none.2 ?_
      have hany := hinner l hl
      rw [Bool.not_eq_true'] at hany
      exact List.any_eq_false.1 hany
    have hfirst : moved.staticImports.find? (r.declaresField name) = some a :=
      List.find?_cons_of_pos hdeclares
    rw [fieldOwner?_eq]
    simp only [htypes, List.findSome?_append, hnone, List.findSome?_cons, hfirst, Option.none_or]

/-- A field has one owner exactly if no order of imports changes which type's field is meant. -/
theorem oneOwner_iff (r : Registry) (s : Scope) (name : String) :
    r.OneOwner s name ↔ ∀ s' : Scope, s.SameImports s' → r.fieldOwner? s' name = r.fieldOwner? s name := by
  refine ⟨fun hone s' h => (fieldOwner?_eq_of_oneOwner h hone).symm, ?_⟩
  intro hsame htypes level hlevel a ha b hb hdeclares hdeclares'
  obtain ⟨first, hfirst, howner⟩ := exists_fieldOwner?_eq htypes hlevel ha hdeclares
  obtain ⟨second, hsecond, howner'⟩ := exists_fieldOwner?_eq htypes hlevel hb hdeclares'
  rw [hsame first hfirst] at howner
  rw [hsame second hsecond, howner] at howner'
  exact Option.some.inj howner'

/-- What a name of a constant field stands for, if it does not depend on the order of imports which
type declares it. -/
theorem constantField_eq (h : s.SameImports s') (source : String) (n : NamedType)
    (hone : ∀ last : Ident, n.alias? = none → n.segments = [⟨last, []⟩] → r.OneOwner s last.name) :
    r.constantField s source n = r.constantField s' source n := by
  have hid : r.fieldId? s n = r.fieldId? s' n := by
    unfold fieldId?
    cases hlast : n.last? with
    | none => rfl
    | some segment =>
        match segment, hlast with
        | ⟨_, _ :: _⟩, _ => rfl
        | ⟨last, []⟩, hlast =>
            simp only
            split
            · rename_i hsimple
              obtain ⟨hpath, halias⟩ := Bool.and_eq_true_iff.1 hsimple
              have hsegments : n.segments = [⟨last, []⟩] := by
                rw [← List.dropLast_append_getLast? _ hlast, List.isEmpty_iff.1 hpath,
                  List.nil_append]
              rw [fieldOwner?_eq_of_oneOwner h (hone last (Option.isNone_iff_eq_none.1 halias) hsegments)]
            · rw [(Lookup.type_alike h r { n with segments := n.segments.dropLast }).toOption]
  rw [constantField, constantField, hid]

end Registry

namespace ConstantFields

/-- The order and the repetition of imports do not matter to what names of types and of attributes
and written types stand for.  Nor do they matter to the value of an expression in which every simple
name has one owner; and a simple name has one owner exactly if they do not matter to whose field it
is. -/
theorem importOrder_irrelevant (p : ConstantFields) (s s' : Scope) (h : s.SameImports s') :
    (∀ n, (Lookup.type p.registry s n).Alike (Lookup.type p.registry s' n)) ∧
    (∀ n, Lookup.attribute? p.registry s n = Lookup.attribute? p.registry s' n) ∧
    (∀ type, Lookup.resolve p.registry s type = Lookup.resolve p.registry s' type) ∧
    (∀ source e,
      (∀ n ∈ e.neededNames, ∀ last : Ident, n.alias? = none → n.segments = [⟨last, []⟩] →
        p.registry.OneOwner s last.name) →
      p.evaluate s source e = p.evaluate s' source e) ∧
    ∀ name, p.registry.OneOwner s name ↔ ∀ s'' : Scope, s.SameImports s'' →
      p.registry.fieldOwner? s'' name = p.registry.fieldOwner? s name := by
  refine ⟨Lookup.type_alike h p.registry, Lookup.attribute?_eq h p.registry,
    Lookup.resolve_eq h p.registry, fun source e hone => ?_, p.registry.oneOwner_iff s⟩
  exact Evaluation.ofExpr_congr rfl fun n hn => Registry.constantField_eq h source n (hone n hn)

/-! ### Two types with constants of one name -/

/-- A class with constant fields. -/
def sampleClass (name : String) (key : TypeKey) (constants : List (String × Int)) : TypeEntry :=
  { Lookup.sampleClass [] name key with
    members := constants.map fun (name, value) =>
      .field ⟨name, .keyword "int", .constOnly, some (.int value)⟩ }

/-- The class `A` with the constants `X` and `Y`, and the class `B` with another constant `X`. -/
def sampleFields : ConstantFields where
  registry := ([sampleClass "A" ⟨1⟩ [("X", 1), ("Y", 5)], sampleClass "B" ⟨2⟩ [("X", 2)]].foldlM
    Registry.register .empty).toOption.getD .empty
  initializers := .empty

/-- The scope of a source that imports namespaces, and types for their members. -/
def sampleScope (imports : List NamespaceId) (staticImports : List TypeKey) : Scope :=
  .unit ⟨NamespaceTree.root, imports, staticImports, .empty⟩

/-- An expression that is a simple name. -/
def sampleName (name : String) : Expr := .name ⟨none, [⟨⟨name, .nowhere⟩, []⟩], .nowhere⟩

theorem sampleScope_sameImports :
    (sampleScope [0] [⟨1⟩, ⟨2⟩]).SameImports (sampleScope [0, 0] [⟨2⟩, ⟨1⟩, ⟨2⟩]) :=
  ⟨rfl, .cons ⟨rfl, by simp, by simp [or_comm], rfl⟩ .nil⟩

/-- The value of a constant that one of two imported types declares is the same in both orders. -/
theorem importOrder_irrelevant_oneOwner :
    (sampleScope [0] [⟨1⟩, ⟨2⟩]).SameImports (sampleScope [0, 0] [⟨2⟩, ⟨1⟩, ⟨2⟩]) ∧
    sampleFields.registry.OneOwner (sampleScope [0] [⟨1⟩, ⟨2⟩]) "Y" ∧
    sampleFields.evaluate (sampleScope [0] [⟨1⟩, ⟨2⟩]) "Y" (sampleName "Y") =
      sampleFields.evaluate (sampleScope [0, 0] [⟨2⟩, ⟨1⟩, ⟨2⟩]) "Y" (sampleName "Y") := by
  have hone : sampleFields.registry.OneOwner (sampleScope [0] [⟨1⟩, ⟨2⟩]) "Y" := by
    have honly : ∀ key ∈ ([⟨1⟩, ⟨2⟩] : List TypeKey),
        sampleFields.registry.declaresField "Y" key = true → key = ⟨1⟩ := by decide +kernel
    intro _ level hlevel a ha b hb hdeclares hdeclares'
    obtain rfl := List.mem_singleton.1 (List.mem_of_find?_eq_some hlevel)
    rw [honly a ha hdeclares, honly b hb hdeclares']
  refine ⟨sampleScope_sameImports, hone, ?_⟩
  refine (importOrder_irrelevant sampleFields _ _ sampleScope_sameImports).2.2.2.1 "Y" _ ?_
  intro n hn last _ hsegments
  obtain rfl := List.mem_singleton.1 hn
  cases hsegments
  exact hone

/-- A constant that two imported types declare has the value of the first one's. -/
theorem importOrder_decides_value :
    (sampleScope [0] [⟨1⟩, ⟨2⟩]).SameImports (sampleScope [0, 0] [⟨2⟩, ⟨1⟩, ⟨2⟩]) ∧
    (sampleFields.evaluate (sampleScope [0] [⟨1⟩, ⟨2⟩]) "X" (sampleName "X") .empty).1 =
      .ok (.int 1) ∧
    (sampleFields.evaluate (sampleScope [0, 0] [⟨2⟩, ⟨1⟩, ⟨2⟩]) "X" (sampleName "X") .empty).1 =
      .ok (.int 2) := by
  refine ⟨sampleScope_sameImports, ?_, ?_⟩ <;> decide +kernel

end ConstantFields

end Graft
