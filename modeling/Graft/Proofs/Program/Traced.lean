/-
Module: Graft.Proofs.Program.Traced
Purpose: The declarations that the members of a type are first declared in.
Main exports: TracedMember, TracedMember.addTo, Registration.firstDeclared,
  Completion.members_eq_declaredIn, Completion.members_eq_firstDeclared, TracedMember.Linked,
  TracedMember.forall₂_foldl_addTo, FieldValues.settled_spec

A member of a completed type may have several declarations, and its type is the one that is written in
the first.  A traced member carries that declaration along while members are added, which changes
nothing else.
-/
import Mathlib.Data.List.Basic
import Mathlib.Data.List.Forall2
import Graft.Proofs.Program.Members

namespace Graft

/-- The type of a property or a field. -/
def MemberEntry.type? : MemberEntry → Option TypeRef
  | property p => some p.type
  | field f => some f.type
  | method _ | event _ | nestedType _ _ => none

/-- A member, and the type declaration that it is first declared in. -/
abbrev TracedMember := DeclId × MemberEntry

/-! ### Lists in which one element is changed -/

/-- What is changed in the image of a list is changed in the list. -/
theorem replaceFirst?_map {α β : Type} (f : α → β) (test : β → Bool) {change : β → β} {inner : α → α}
    (hchange : ∀ a, change (f a) = f (inner a)) (list : List α) :
    replaceFirst? test change (list.map f) = (replaceFirst? (fun a => test (f a)) inner list).map
      (List.map f) := by
  induction list with
  | nil => rfl
  | cons a rest ih =>
      rw [List.map_cons, replaceFirst?, replaceFirst?, hchange, ih]
      split
      · rfl
      · cases replaceFirst? (fun a => test (f a)) inner rest <;> rfl

/-- Lists that are related element by element stay so, and both or none have an element that is changed. -/
theorem replaceFirst?_forall₂ {α β : Type} {R : α → β → Prop} {test : α → Bool} {change : α → α}
    {test' : β → Bool} {change' : β → β} (htest : ∀ a b, R a b → test a = test' b)
    (hchange : ∀ a b, R a b → test a = true → R (change a) (change' b))
    {list : List α} {list' : List β} (related : List.Forall₂ R list list') :
    (replaceFirst? test change list = none ∧ replaceFirst? test' change' list' = none) ∨
      ∃ l l', replaceFirst? test change list = some l ∧ replaceFirst? test' change' list' = some l' ∧
        List.Forall₂ R l l' := by
  induction related with
  | nil => exact .inl ⟨rfl, rfl⟩
  | @cons a b rest rest' hab hrest ih =>
      rw [replaceFirst?, replaceFirst?, ← htest a b hab]
      split
      · exact .inr ⟨_, _, rfl, rfl, .cons (hchange a b hab ‹_›) hrest⟩
      · rcases ih with ⟨hnone, hnone'⟩ | ⟨l, l', hl, hl', hrelated⟩
        · rw [hnone, hnone']
          exact .inl ⟨rfl, rfl⟩
        · rw [hl, hl']
          exact .inr ⟨_, _, rfl, rfl, .cons hab hrelated⟩

namespace TracedMember

/-! ### Members with their first declarations -/

/-- A list of members with one more.  A member that joins an earlier one leaves its first declaration. -/
def addTo (members : List TracedMember) (m : TracedMember) : List TracedMember :=
  match m.2 with
  | .property p =>
      if p.modifiers.isPartial then
        (replaceFirst? (fun x => x.2.isPartialProperty p.name) (fun x => (x.1, x.2.withParts p))
          members).getD (members ++ [m])
      else members ++ [m]
  | .field _ | .method _ | .event _ | .nestedType _ _ =>
      if members.any (fun x => MemberEntry.isRepeatedBy m.2 x.2) then members else members ++ [m]

/-- Without their first declarations members are added as ever. -/
theorem map_snd_addTo (members : List TracedMember) (m : TracedMember) :
    (addTo members m).map Prod.snd = MemberEntry.addTo (members.map Prod.snd) m.2 := by
  obtain ⟨id, m⟩ := m
  have hrepeated : ∀ rest : List TracedMember, ((if members.any (fun x => MemberEntry.isRepeatedBy m x.2)
      then members else members ++ rest).map Prod.snd) =
        if (members.map Prod.snd).any (MemberEntry.isRepeatedBy m)
        then members.map Prod.snd else members.map Prod.snd ++ rest.map Prod.snd := by
    intro rest
    rw [List.any_map]
    split
    · rw [if_pos ‹_›]
    · rw [if_neg ‹_›, List.map_append]
  cases m with
  | property p =>
      rw [addTo, MemberEntry.addTo]
      dsimp only
      split
      · have hchange : ∀ x : TracedMember, x.2.withParts p = ((x.1, x.2.withParts p) : TracedMember).2 :=
          fun _ => rfl
        rw [replaceFirst?_map Prod.snd (MemberEntry.isPartialProperty p.name) hchange]
        cases replaceFirst? (fun x : TracedMember => x.2.isPartialProperty p.name)
            (fun x => (x.1, x.2.withParts p)) members with
        | none => exact List.map_append
        | some replaced => rfl
      · exact List.map_append
  | field f => exact hrepeated [(id, .field f)]
  | method f => exact hrepeated [(id, .method f)]
  | event f => exact hrepeated [(id, .event f)]
  | nestedType name key => exact hrepeated [(id, .nestedType name key)]

theorem map_snd_foldl_addTo (list members : List TracedMember) :
    (list.foldl addTo members).map Prod.snd = (list.map Prod.snd).foldl MemberEntry.addTo
      (members.map Prod.snd) := by
  induction list generalizing members with
  | nil => rfl
  | cons m rest ih => rw [List.foldl_cons, ih, map_snd_addTo, List.map_cons, List.foldl_cons]

end TracedMember

/-! ### Members of types -/

namespace Registration

/-- What the bodies of a type's declarations declare, each with its declaration. -/
def tracedIn (g : Registration) (bodies : List DeclBody) (key : TypeKey) : List TracedMember :=
  (bodies.filter (·.owner = key)).flatMap fun b => (b.members g.registry g.declared).map (b.decl.id, ·)

/-- The members of a type, each with the declaration that it is first declared in. -/
def firstDeclared (g : Registration) (bodies : List DeclBody) (key : TypeKey) : List TracedMember :=
  (g.tracedIn bodies key).foldl TracedMember.addTo []

/-- Registered types have no members yet. -/
theorem members_ofTrees (trees : List SourceTree) :
    ∀ key e, (ofTrees trees).registry.get? key = some e → e.members = [] := by
  refine registry_induction (P := fun r => ∀ key e, r.get? key = some e → e.members = [])
    (fun _ _ h => by cases h)
    (fun _ _ hr => hr) (fun s _ origin r r' hr hregister => ?_) fun r key d hr => ?_
  · intro key e he
    rw [(Registry.register_eq_ok hregister).2.2] at he
    split at he
    · cases he
      rfl
    · exact hr key e he
  · intro other e he
    rw [Registry.get?_modify] at he
    split at he
    · obtain ⟨old, hold, rfl⟩ := Option.map_eq_some_iff.1 he
      exact hr key old hold
    · exact hr other e he

end Registration

namespace Completion

/-- A completed type has the members that its declarations declare, added one by one. -/
theorem members_eq_declaredIn (trees : List SourceTree) {key : TypeKey} {e : TypeEntry}
    (he : (ofRegistration (.ofTrees trees) trees).registry.get? key = some e) :
    let g := Registration.ofTrees trees
    e.members = ((g.declaredIn (g.bodies trees) key).foldl MemberEntry.addTo []).map
      (((g.constantFields (g.bodies trees)).evaluateAll .empty).settled key) := by
  intro g
  have hmembers := members_ofRegistration g trees key
  rw [he, Registration.get?_withMembers, Option.map_map, Option.map_map] at hmembers
  obtain ⟨old, hold, hsettled⟩ := Option.map_eq_some_iff.1 hmembers.symm
  change _ = e.members at hsettled
  rw [← hsettled]
  simp only [Function.comp_apply]
  rw [Registration.members_ofTrees trees key old hold]

/-- A completed type has the members that its declarations declare, in the order in which they are first
declared. -/
theorem members_eq_firstDeclared (trees : List SourceTree) {key : TypeKey} {e : TypeEntry}
    (he : (ofRegistration (.ofTrees trees) trees).registry.get? key = some e) :
    let g := Registration.ofTrees trees
    e.members = ((g.firstDeclared (g.bodies trees) key).map Prod.snd).map
      (((g.constantFields (g.bodies trees)).evaluateAll .empty).settled key) := by
  intro g
  have hdeclared : g.declaredIn (g.bodies trees) key = (g.tracedIn (g.bodies trees) key).map Prod.snd := by
    rw [Registration.declaredIn, Registration.tracedIn, List.map_flatMap]
    refine List.flatMap_congr fun b _ => ?_
    rw [List.map_map]
    exact (List.map_id _).symm
  rw [members_eq_declaredIn trees he, Registration.firstDeclared, TracedMember.map_snd_foldl_addTo,
    ← hdeclared]
  rfl

end Completion

/-! ### Members that differ in types only -/

/-- Two members of one kind have one name and the same modifiers. -/
inductive MemberEntry.SameName : MemberEntry → MemberEntry → Prop
  | property {p q : PropertyEntry} (name : p.name = q.name) (modifiers : p.modifiers = q.modifiers) :
      SameName (.property p) (.property q)
  | field {f g : FieldEntry} (name : f.name = g.name) (modifiers : f.modifiers = g.modifiers) :
      SameName (.field f) (.field g)
  | method {m n : CallableEntry} (name : m.name = n.name) (modifiers : m.modifiers = n.modifiers) :
      SameName (.method m) (.method n)
  | event {m n : CallableEntry} (name : m.name = n.name) (modifiers : m.modifiers = n.modifiers) :
      SameName (.event m) (.event n)
  | nestedType (name : String) (key : TypeKey) : SameName (.nestedType name key) (.nestedType name key)

namespace MemberEntry.SameName

theorem refl (m : MemberEntry) : m.SameName m := by
  cases m with
  | property _ => exact .property rfl rfl
  | field _ => exact .field rfl rfl
  | method _ => exact .method rfl rfl
  | event _ => exact .event rfl rfl
  | nestedType name key => exact .nestedType name key

variable {m n : MemberEntry}

theorem name (same : m.SameName n) : m.name = n.name := by
  cases same with
  | property name _ | field name _ | method name _ | event name _ => exact name
  | nestedType _ _ => rfl

theorem kindName (same : m.SameName n) : m.kindName = n.kindName := by
  cases same <;> rfl

/-- Such members repeat such members. -/
theorem isRepeatedBy {next next' : MemberEntry} (later : next.SameName next') (same : m.SameName n) :
    MemberEntry.isRepeatedBy next m = MemberEntry.isRepeatedBy next' n := by
  cases same with
  | property _ _ | field _ _ | event _ _ => rfl
  | method name modifiers =>
      cases later with
      | method name' modifiers' =>
          simp only [MemberEntry.isRepeatedBy, name, modifiers, name', modifiers']
      | property _ _ | field _ _ | event _ _ | nestedType _ _ => rfl
  | nestedType _ _ => cases later <;> rfl

theorem isPartialProperty (same : m.SameName n) (name : String) :
    m.isPartialProperty name = n.isPartialProperty name := by
  cases same with
  | property hname modifiers => simp only [MemberEntry.isPartialProperty, hname, modifiers]
  | field _ _ | method _ _ | event _ _ | nestedType _ _ => rfl

theorem withParts (same : m.SameName n) {p q : PropertyEntry} (modifiers : p.modifiers = q.modifiers) :
    (m.withParts p).SameName (n.withParts q) := by
  cases same with
  | property hname hmodifiers => exact .property hname (congrArg₂ Modifiers.union hmodifiers modifiers)
  | field hname hmodifiers => exact .field hname hmodifiers
  | method hname hmodifiers => exact .method hname hmodifiers
  | event hname hmodifiers => exact .event hname hmodifiers
  | nestedType name key => exact .nestedType name key

end MemberEntry.SameName

@[simp] theorem MemberEntry.type?_withParts (m : MemberEntry) (p : PropertyEntry) :
    (m.withParts p).type? = m.type? := by
  cases m <;> rfl

namespace TracedMember

/-- Two members are first declared in one declaration.  If that is none of some declarations, they have the
same type. -/
structure Linked (inside : List DeclId) (x y : TracedMember) : Prop where
  first : x.1 = y.1
  sameName : x.2.SameName y.2
  type? : x.1 ∉ inside → x.2.type? = y.2.type?

variable {inside : List DeclId}

theorem Linked.refl (x : TracedMember) : Linked inside x x := ⟨rfl, .refl x.2, fun _ => rfl⟩

/-- Members that are linked stay so when linked ones are added. -/
theorem forall₂_addTo {members members' : List TracedMember}
    (linked : List.Forall₂ (Linked inside) members members') {m n : TracedMember}
    (next : Linked inside m n) :
    List.Forall₂ (Linked inside) (addTo members m) (addTo members' n) := by
  have happend : List.Forall₂ (Linked inside) (members ++ [m]) (members' ++ [n]) :=
    List.rel_append linked (.cons next .nil)
  have hrepeated : List.Forall₂ (Linked inside)
      (if members.any (fun x => MemberEntry.isRepeatedBy m.2 x.2) then members else members ++ [m])
      (if members'.any (fun x => MemberEntry.isRepeatedBy n.2 x.2) then members' else members' ++ [n]) := by
    have hany : members.any (fun x => MemberEntry.isRepeatedBy m.2 x.2) =
        members'.any (fun x => MemberEntry.isRepeatedBy n.2 x.2) := by
      clear happend
      induction linked with
      | nil => rfl
      | cons h _ ih => rw [List.any_cons, List.any_cons, ih, next.sameName.isRepeatedBy h.sameName]
    rw [hany]
    split
    · exact linked
    · exact happend
  obtain ⟨id, m⟩ := m
  obtain ⟨id', n⟩ := n
  cases next.sameName with
  | @property p q name modifiers =>
      rw [addTo, addTo]
      dsimp only
      rw [modifiers, name]
      split
      · have hreplaced := replaceFirst?_forall₂ (R := Linked inside)
          (fun x y h => h.sameName.isPartialProperty q.name)
          (fun x y h _ => show Linked inside (x.1, x.2.withParts p) (y.1, y.2.withParts q) from
            ⟨h.first, h.sameName.withParts modifiers, fun hx => by simpa using h.type? hx⟩) linked
        rcases hreplaced with ⟨hnone, hnone'⟩ | ⟨l, l', hl, hl', hlinked⟩
        · rw [hnone, hnone']
          exact happend
        · rw [hl, hl']
          exact hlinked
      · exact happend
  | field _ _ | method _ _ | event _ _ | nestedType _ _ => exact hrepeated

theorem forall₂_foldl_addTo {list list' members members' : List TracedMember}
    (next : List.Forall₂ (Linked inside) list list')
    (linked : List.Forall₂ (Linked inside) members members') :
    List.Forall₂ (Linked inside) (list.foldl addTo members) (list'.foldl addTo members') :=
  List.rel_foldl (P := List.Forall₂ (Linked inside)) (R := Linked inside)
    (fun _ _ h _ _ hm => forall₂_addTo h hm) linked next

end TracedMember

/-- A value changes neither what a member is called nor its type. -/
theorem FieldValues.settled_spec (values : FieldValues) (owner : TypeKey) (m : MemberEntry) :
    (values.settled owner m).name = m.name ∧ (values.settled owner m).kindName = m.kindName ∧
      (values.settled owner m).type? = m.type? := by
  have hstep : ∀ (name : String) (value : Constant) (m : MemberEntry),
      (m.withConstant name value).name = m.name ∧
      (m.withConstant name value).kindName = m.kindName ∧ (m.withConstant name value).type? = m.type? := by
    intro name value m
    cases m with
    | field f =>
        rw [MemberEntry.withConstant]
        split
        · exact ⟨rfl, rfl, rfl⟩
        · exact ⟨rfl, rfl, rfl⟩
    | property _ | method _ | event _ | nestedType _ _ => exact ⟨rfl, rfl, rfl⟩
  unfold settled
  induction values.entries generalizing m with
  | nil => exact ⟨rfl, rfl, rfl⟩
  | cons entry rest ih =>
      obtain ⟨id, value⟩ := entry
      rw [List.foldl_cons]
      cases value with
      | error _ => exact ih m
      | ok c =>
          dsimp only
          split
          · obtain ⟨hname, hkind, htype⟩ := ih (m.withConstant id.name c)
            obtain ⟨hname', hkind', htype'⟩ := hstep id.name c m
            exact ⟨hname.trans hname', hkind.trans hkind', htype.trans htype'⟩
          · exact ih m

end Graft
