/-
Module: Graft.Proofs.Program.Members
Purpose: The members of a completed type and the declarations that they come from.
Main exports: Registration.declaredIn, Registration.get?_withMembers, Registration.alike_withMembers,
  Registry.get?_withConstants, Completion.members_ofRegistration

Members come to a type one by one.  Later steps give values to its fields and add attributes, but no
member comes or goes any more.
-/
import Graft.Program.Completion
import Graft.Proofs.Program.Alike

namespace Graft

/-! ### Members -/

/-- What a change of one element leaves alone is the same for the whole list. -/
theorem filterMap_replaceFirst? {α β : Type} (g : α → Option β) {test : α → Bool} {f : α → α}
    (hf : ∀ a, g (f a) = g a) {list replaced : List α} (h : replaceFirst? test f list = some replaced) :
    replaced.filterMap g = list.filterMap g := by
  induction list generalizing replaced with
  | nil => cases h
  | cons a rest ih =>
      unfold replaceFirst? at h
      split at h
      · cases h
        rw [List.filterMap_cons, List.filterMap_cons, hf]
      · obtain ⟨list, hlist, rfl⟩ := Option.map_eq_some_iff.1 h
        rw [List.filterMap_cons, List.filterMap_cons, ih hlist]

/-- What the bodies of a type's declarations declare, in the order of the bodies. -/
def Registration.declaredIn (g : Registration) (bodies : List DeclBody) (key : TypeKey) :
    List MemberEntry :=
  (bodies.filter (·.owner = key)).flatMap (·.members g.registry g.declared)

/-- The members of a type are those it had and those that are added to it. -/
theorem TypeEntry.foldl_addMember (e : TypeEntry) (list : List MemberEntry) :
    list.foldl addMember e = { e with members := list.foldl MemberEntry.addTo e.members } := by
  induction list generalizing e with
  | nil => rfl
  | cons m rest ih => exact ih (e.addMember m)

namespace Registration

theorem get?_foldl_addMember (owner key : TypeKey) (list : List MemberEntry) (r : Registry) :
    (list.foldl (fun r m => r.modify owner (·.addMember m)) r).get? key =
      if key = owner then (r.get? key).map (list.foldl TypeEntry.addMember ·) else r.get? key := by
  induction list generalizing r with
  | nil => simp
  | cons m rest ih =>
      rw [List.foldl_cons, ih, Registry.get?_modify]
      by_cases hkey : key = owner
      · rw [if_pos hkey, if_pos hkey, if_pos hkey, hkey, Option.map_map]
        rfl
      · rw [if_neg hkey, if_neg hkey, if_neg hkey]

/-- A type gets what the bodies of its declarations declare. -/
theorem get?_withMembers (g : Registration) (bodies : List DeclBody) (key : TypeKey) :
    (g.withMembers bodies).get? key = (g.registry.get? key).map fun e =>
      { e with members := (g.declaredIn bodies key).foldl MemberEntry.addTo e.members } := by
  have hfold : ∀ r : Registry, (bodies.foldl (fun r b => (b.members g.registry g.declared).foldl
      (fun r m => r.modify b.owner (·.addMember m)) r) r).get? key =
        (r.get? key).map ((g.declaredIn bodies key).foldl TypeEntry.addMember ·) := by
    unfold declaredIn
    induction bodies with
    | nil =>
        intro r
        simp
    | cons b rest ih =>
        intro r
        rw [List.foldl_cons, ih, get?_foldl_addMember]
        by_cases hkey : key = b.owner
        · rw [if_pos hkey, List.filter_cons_of_pos (by simpa using hkey.symm), List.flatMap_cons,
            Option.map_map]
          simp only [List.foldl_append]
          rfl
        · rw [if_neg hkey, List.filter_cons_of_neg (by simpa using fun h => hkey h.symm)]
  rw [withMembers, hfold]
  exact Option.map_congr fun e _ => e.foldl_addMember _

/-- Members do not change what a type is called. -/
theorem alike_withMembers (g : Registration) (bodies : List DeclBody) :
    (g.withMembers bodies).Alike g.registry := by
  refine .foldl _ (fun r b => ?_) _ _
  refine .foldl _ (fun r m => ?_) _ _
  exact .modify r b.owner fun _ => rfl

end Registration

/-! ### Values and attributes -/

/-- A member with a value if it is a constant field with a name. -/
def MemberEntry.withConstant (name : String) (value : Constant) : MemberEntry → MemberEntry
  | field f =>
      if f.name = name && f.modifiers.isConst then field { f with value? := some value } else field f
  | m => m

theorem TypeEntry.withConstant_eq (e : TypeEntry) (name : String) (value : Constant) :
    e.withConstant name value = { e with members := e.members.map (.withConstant name value) } := rfl

/-- What a member of a type is when the values of fields are known. -/
def FieldValues.settled (values : FieldValues) (owner : TypeKey) (m : MemberEntry) : MemberEntry :=
  values.entries.foldl (fun m (id, value) =>
    match value with
    | .ok c => if owner = id.owner then m.withConstant id.name c else m
    | .error _ => m) m

/-- A property has no value. -/
theorem FieldValues.settled_property (values : FieldValues) (owner : TypeKey) (p : PropertyEntry) :
    values.settled owner (.property p) = .property p := by
  unfold settled
  induction values.entries with
  | nil => rfl
  | cons entry rest ih =>
      rw [List.foldl_cons]
      obtain ⟨id, value⟩ := entry
      cases value with
      | error _ => exact ih
      | ok c =>
          dsimp only
          split
          · exact ih
          · exact ih

namespace Registry

/-- The fields of every type get their values. -/
theorem get?_withConstants (r : Registry) (values : FieldValues) (key : TypeKey) :
    (r.withConstants values).get? key = (r.get? key).map fun e =>
      { e with members := e.members.map (values.settled key) } := by
  unfold withConstants FieldValues.settled
  induction values.entries generalizing r with
  | nil => simp
  | cons entry rest ih =>
      obtain ⟨id, value⟩ := entry
      rw [List.foldl_cons, ih]
      cases value with
      | error _ => rfl
      | ok c =>
          dsimp only
          rw [get?_modify]
          by_cases hkey : key = id.owner
          · rw [if_pos hkey, hkey, Option.map_map]
            refine Option.map_congr fun e _ => ?_
            simp only [Function.comp_apply, TypeEntry.withConstant_eq, List.map_map, List.foldl_cons,
              if_pos]
            rfl
          · rw [if_neg hkey]
            simp only [List.foldl_cons, if_neg hkey]

/-- Attributes are no members. -/
theorem members_withAttributes (r : Registry) (attributes : List (TypeKey × AttributeEntry))
    (key : TypeKey) : ((r.withAttributes attributes).get? key).map (·.members) =
      (r.get? key).map (·.members) := by
  unfold withAttributes
  induction attributes generalizing r with
  | nil => rfl
  | cons entry rest ih =>
      rw [List.foldl_cons, ih, get?_modify]
      split
      · rename_i hkey
        rw [hkey, Option.map_map]
        rfl
      · rfl

end Registry

/-- The members of a completed type. -/
theorem Completion.members_ofRegistration (g : Registration) (trees : List SourceTree)
    (key : TypeKey) :
    ((ofRegistration g trees).registry.get? key).map (·.members) =
      (((g.withMembers (g.bodies trees)).get? key).map (·.members)).map
        (List.map (((g.constantFields (g.bodies trees)).evaluateAll .empty).settled key)) := by
  unfold ofRegistration
  dsimp only
  rw [Registry.members_withAttributes, Registry.get?_withConstants, Option.map_map, Option.map_map]
  rfl

end Graft
