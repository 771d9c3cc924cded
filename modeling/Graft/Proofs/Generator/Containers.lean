/-
Module: Graft.Proofs.Generator.Containers
Purpose: The walk from a type to the types around it.
Main exports: SourceModel.Around, SourceModel.Around.containerHeaders_eq, SourceModel.Contained,
  SourceModel.Contained.exists_around, SourceModel.Contained.containerHeaders_within

A host may say of any type that it is inside of any other one, and the walk follows what it says.  So the
walk comes to an end exactly where the chain of types around a type does, which is stated by `Around`.
-/
import Graft.Generator.Synthesis

namespace Graft

namespace SourceModel

variable {m : SourceModel} {key : TypeKey} {e holder : TypeEntry} {headers : List TypeHeader}

/-- The headers of the types around a type, the outermost first, where the chain of these types has an
end. -/
inductive Around (m : SourceModel) : TypeEntry → List TypeHeader → Prop where
  | outermost {e : TypeEntry} (alone : e.container?.bind m.entry? = none) : Around m e []
  | within {e holder : TypeEntry} {headers : List TypeHeader}
      (inside : e.container?.bind m.entry? = some holder)
      (later : Around m holder headers) : Around m e (headers ++ [holder.partialHeader])

namespace Around

/-- The walk comes to an end. -/
theorem acc (h : m.Around e headers) :
    Acc (fun holder e => e.container?.bind m.entry? = some holder) e := by
  induction h with
  | outermost alone =>
      refine .intro _ fun holder inside => ?_
      cases alone.symm.trans inside
  | within inside _ ih =>
      refine .intro _ fun other hother => ?_
      cases inside.symm.trans hother
      exact ih

/-- The walk from a type gives the headers around it, and then its own one. -/
theorem headersTo_eq (h : m.Around e headers) : m.headersTo e = headers ++ [e.partialHeader] := by
  have hends := h.acc
  induction h with
  | outermost alone =>
      rw [headersTo, WellFounded.partialExtrinsicFix_eq_apply_of_acc hends]
      split
      · rfl
      · rename_i inside
        cases alone.symm.trans inside
  | within inside later ih =>
      rw [headersTo, WellFounded.partialExtrinsicFix_eq_apply_of_acc hends]
      split
      · rename_i alone
        cases inside.symm.trans alone
      · rename_i hother
        cases inside.symm.trans hother
        exact congrArg (· ++ _) (ih later.acc)

/-- The walk outwards gives the headers of the types around a type. -/
theorem containerHeaders_eq (h : m.Around e headers) : m.containerHeaders e = headers := by
  cases h with
  | outermost alone => rw [containerHeaders, alone]
  | within inside later =>
      rw [containerHeaders, inside]
      exact later.headersTo_eq

end Around

/-- A type that is in no other one has no headers around it. -/
theorem containerHeaders_of_top (h : e.container? = none) : m.containerHeaders e = [] :=
  Around.containerHeaders_eq (.outermost (by rw [h, Option.bind_none]))

/-- No chain of types around a type is endless. -/
def Contained (m : SourceModel) : Prop :=
  WellFounded fun outer key => ∃ e, m.entry? key = some e ∧ e.container? = some outer

namespace Contained

variable (contained : m.Contained)
include contained

/-- The walk from every type comes to an end. -/
theorem exists_around (he : m.entry? key = some e) : ∃ headers, m.Around e headers := by
  induction key using WellFounded.induction contained generalizing e with
  | _ key ih =>
      cases hinside : e.container?.bind m.entry? with
      | none => exact ⟨[], .outermost hinside⟩
      | some holder =>
          obtain ⟨outer, houter, hholder⟩ := Option.bind_eq_some_iff.1 hinside
          obtain ⟨headers, later⟩ := ih outer ⟨e, he, houter⟩ hholder
          exact ⟨_, .within hinside later⟩

/-- The headers around a type are those around the type that holds it, and that one's. -/
theorem containerHeaders_within (hkey : e.container? = some key) (hholder : m.entry? key = some holder) :
    m.containerHeaders e = m.containerHeaders holder ++ [holder.partialHeader] := by
  obtain ⟨headers, later⟩ := contained.exists_around hholder
  have inside : e.container?.bind m.entry? = some holder := by rw [hkey, Option.bind_some, hholder]
  rw [later.containerHeaders_eq, (Around.within inside later).containerHeaders_eq]

end Contained

end SourceModel

end Graft
