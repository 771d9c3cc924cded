/-
Module: Graft.Proofs.Program.Written
Purpose: The members of a completed type are the ones that its declarations are written with.
Main exports: Grouping, Grouping.perm, MemberItem, WrittenMember, MemberEntry.Tells,
  Registration.written, Registration.exists_admits, Completion.members_told, Completion.members_grouped

What is written falls into groups, the first of its elements before those that share a member with it.
Members that are added one by one follow the groups, one member to a group, so nothing that is written
is lost and nothing counts twice.
-/
import Graft.Proofs.Program.Locality
import Graft.Proofs.Program.Stored

namespace Graft

/-! ### Groups of elements that share a key -/

/-- The groups of a list, in the order of their first elements.  An element with a key is together with
all others that have the key, and one without a key is alone. -/
inductive Grouping {α κ : Type} [DecidableEq κ] (key? : α → Option κ) : List α → List (List α) → Prop where
  | nil : Grouping key? [] []
  | alone {a : α} {rest : List α} {groups : List (List α)} (keyless : key? a = none)
      (later : Grouping key? rest groups) : Grouping key? (a :: rest) ([a] :: groups)
  | shared {a : α} {rest : List α} {groups : List (List α)} {k : κ} (keyed : key? a = some k)
      (later : Grouping key? (rest.filter (key? · ≠ some k)) groups) :
      Grouping key? (a :: rest) ((a :: rest.filter (key? · = some k)) :: groups)

namespace Grouping

variable {α κ : Type} [DecidableEq κ] {key? : α → Option κ}

/-- The key of a group is that of its first element. -/
def keyOf? (key? : α → Option κ) (group : List α) : Option κ := group.head?.bind key?

/-- An element belongs to a group if they have a key in common. -/
def belongs (key? : α → Option κ) (a : α) (group : List α) : Bool :=
  (key? a).isSome && keyOf? key? group = key? a

/-- The groups with one more element, which joins the group of its key if there is one. -/
def add (key? : α → Option κ) (groups : List (List α)) (a : α) : List (List α) :=
  (replaceFirst? (belongs key? a) (· ++ [a]) groups).getD (groups ++ [[a]])

/-- A group that an element does not belong to stays as it is. -/
theorem add_cons_of_not_belongs {a : α} {group : List α} (other : belongs key? a group = false)
    (groups : List (List α)) : add key? (group :: groups) a = group :: add key? groups a := by
  rw [add, add, replaceFirst?, if_neg (by rw [other]; exact Bool.false_ne_true)]
  cases replaceFirst? (belongs key? a) (· ++ [a]) groups <;> rfl

/-- An element at the end of a list goes into its group. -/
theorem append_singleton {list : List α} {groups : List (List α)} (h : Grouping key? list groups) (a : α) :
    Grouping key? (list ++ [a]) (add key? groups a) := by
  induction h with
  | nil =>
      cases hkey : key? a with
      | none => exact .alone hkey .nil
      | some k => exact .shared hkey .nil
  | @alone b rest groups hkeyless _ ih =>
      have hother : belongs key? a [b] = false := by
        rw [belongs, keyOf?, List.head?_cons, Option.bind_some, hkeyless]
        cases key? a <;> rfl
      rw [add_cons_of_not_belongs hother]
      exact .alone hkeyless ih
  | @shared b rest groups k hkeyed hlater ih =>
      have hbelongs : belongs key? a (b :: rest.filter (key? · = some k)) = decide (key? a = some k) := by
        rw [belongs, keyOf?, List.head?_cons, Option.bind_some, hkeyed]
        cases key? a with
        | none => rfl
        | some l => simp [eq_comm]
      rw [List.cons_append]
      by_cases hkey : key? a = some k
      · have hadd : add key? ((b :: rest.filter (key? · = some k)) :: groups) a =
            (b :: (rest ++ [a]).filter (key? · = some k)) :: groups := by
          rw [add, replaceFirst?, hbelongs, if_pos (decide_eq_true hkey), List.filter_append,
            List.filter_cons_of_pos (by simpa using hkey)]
          rfl
        have hothers : (rest ++ [a]).filter (key? · ≠ some k) = rest.filter (key? · ≠ some k) := by
          rw [List.filter_append, List.filter_cons_of_neg (by simpa using hkey), List.filter_nil,
            List.append_nil]
        rw [hadd]
        exact .shared hkeyed (hothers ▸ hlater)
      · have hsame : (rest ++ [a]).filter (key? · = some k) = rest.filter (key? · = some k) := by
          rw [List.filter_append, List.filter_cons_of_neg (by simpa using hkey), List.filter_nil,
            List.append_nil]
        have hothers : (rest ++ [a]).filter (key? · ≠ some k) = rest.filter (key? · ≠ some k) ++ [a] := by
          rw [List.filter_append, List.filter_cons_of_pos (by simpa using hkey), List.filter_nil]
        rw [add_cons_of_not_belongs (hbelongs.trans (decide_eq_false hkey)), ← hsame]
        exact .shared hkeyed (hothers ▸ ih)

/-- Elements that are added one by one are grouped. -/
theorem foldl_add (key? : α → Option κ) (list : List α) : Grouping key? list (list.foldl (add key?) []) := by
  induction list using List.reverseRecOn with
  | nil => exact .nil
  | append_singleton list a ih =>
      rw [List.foldl_append]
      exact ih.append_singleton a

/-- Each element is in one group, once. -/
theorem perm {list : List α} {groups : List (List α)} (h : Grouping key? list groups) :
    groups.flatten.Perm list := by
  induction h with
  | nil => exact .nil
  | alone _ _ ih => exact ih.cons _
  | @shared a rest groups k _ _ ih =>
      rw [List.flatten_cons, List.cons_append]
      have hsplit := List.filter_append_perm (fun b => decide (key? b = some k)) rest
      simp only [← decide_not] at hsplit
      exact ((ih.append_left _).trans hsplit).cons a

/-- An element without a key is a group. -/
theorem singleton_mem {list : List α} {groups : List (List α)} (h : Grouping key? list groups) {a : α}
    (ha : a ∈ list) (alone : key? a = none) : [a] ∈ groups := by
  induction h with
  | nil => cases ha
  | alone _ _ ih =>
      rcases List.mem_cons.1 ha with rfl | ha
      · exact List.mem_cons_self
      · exact List.mem_cons_of_mem _ (ih ha)
  | shared hkeyed _ ih =>
      rcases List.mem_cons.1 ha with rfl | ha
      · cases alone.symm.trans hkeyed
      · exact List.mem_cons_of_mem _ (ih (List.mem_filter.2 ⟨ha, by simp [alone]⟩))

end Grouping

/-! ### What is written -/

/-- A member as it is written: declarators and names of events one by one, and a nested type with the key
that it is registered under. -/
inductive MemberItem where
  | field (decl : FieldDecl) (declarator : VariableDecl)
  | property (decl : PropertyDecl)
  | method (decl : MethodDecl)
  | event (decl : EventDecl) (name : Ident)
  | nestedType (decl : TypeDecl) (key : TypeKey)

/-- What a member declaration is written with.  A nested type counts if its declaration is registered. -/
def MemberItem.ofDecl (declared : Assoc DeclId TypeKey) : MemberDecl → List MemberItem
  | .field d => d.declarators.map (field d)
  | .property d => [property d]
  | .method d => [method d]
  | .event d => d.names.map (event d)
  | .type d => ((declared.get? d.id).map (nestedType d)).toList
  | .other _ => []

/-- A member that may be written several times: a partial property or method with
a name, or a nested type. -/
inductive SharedMember where
  | property (name : String)
  | method (name : String)
  | nestedType (key : TypeKey)
deriving DecidableEq

/-- A member as it is written in the body of a declaration. -/
structure WrittenMember where
  body : DeclBody
  item : MemberItem

namespace WrittenMember

/-- The member that it shares with others. -/
def shared? (w : WrittenMember) : Option SharedMember :=
  match w.item with
  | .property d => if d.modifiers.isPartial then some (.property d.name.name) else none
  | .method d => if d.modifiers.isPartial then some (.method d.name.name) else none
  | .nestedType _ key => some (.nestedType key)
  | .field _ _ | .event _ _ => none

/-- The member that it is if no other one shares it. -/
def entry (r : Registry) (w : WrittenMember) : MemberEntry :=
  match w.item with
  | .field d v => .field ⟨v.name.name, Lookup.resolve r w.body.scope d.type, d.modifiers, none⟩
  | .property d =>
      .property ⟨d.name.name, Lookup.resolve r w.body.scope d.type, d.modifiers, [w.body.tree.part d]⟩
  | .method d => .method ⟨d.name.name, d.modifiers, d.span⟩
  | .event d name => .event ⟨name.name, d.modifiers, d.span⟩
  | .nestedType d key => .nestedType d.name.name key

end WrittenMember

/-- The members that the body of a declaration is written with. -/
def DeclBody.written (b : DeclBody) (declared : Assoc DeclId TypeKey) : List WrittenMember :=
  b.decl.members.flatMap fun m => (MemberItem.ofDecl declared m).map (⟨b, ·⟩)

theorem DeclBody.members_eq_map_written (b : DeclBody) (r : Registry) (declared : Assoc DeclId TypeKey) :
    b.members r declared = (b.written declared).map (·.entry r) := by
  rw [members, written, List.map_flatMap]
  refine List.flatMap_congr fun m _ => ?_
  rw [List.map_map]
  cases m with
  | field d => rw [MemberItem.ofDecl, List.map_map]; rfl
  | property d => rfl
  | method d => rfl
  | event d => rw [MemberItem.ofDecl, List.map_map]; rfl
  | type d => rw [membersOf, MemberItem.ofDecl]; cases declared.get? d.id <;> rfl
  | other _ => rfl

/-- A member says what the elements of a group are written with.  Name and type are those of the first, and a
property has a part for each of them; only a partial property has more than one.
A field may have a value. -/
inductive MemberEntry.Tells (r : Registry) : List WrittenMember → MemberEntry → Prop where
  | field (b : DeclBody) (d : FieldDecl) (v : VariableDecl) (value? : Option Constant) :
      Tells r [⟨b, .field d v⟩] (.field ⟨v.name.name, Lookup.resolve r b.scope d.type, d.modifiers, value?⟩)
  | property (b : DeclBody) (d : PropertyDecl) (more : List (DeclBody × PropertyDecl))
      (several : more ≠ [] → d.modifiers.isPartial) :
      Tells r (⟨b, .property d⟩ :: more.map fun w => ⟨w.1, .property w.2⟩) (.property
        { name := d.name.name
          type := Lookup.resolve r b.scope d.type
          modifiers := more.foldl (fun m w => m.union w.2.modifiers) d.modifiers
          parts := b.tree.part d :: more.map fun w => w.1.tree.part w.2 })
  | method (b : DeclBody) (d : MethodDecl) (more : List (DeclBody × MethodDecl)) :
      Tells r (⟨b, .method d⟩ :: more.map fun w => ⟨w.1, .method w.2⟩)
      (.method ⟨d.name.name, d.modifiers, d.span⟩)
  | event (b : DeclBody) (d : EventDecl) (name : Ident) :
      Tells r [⟨b, .event d name⟩] (.event ⟨name.name, d.modifiers, d.span⟩)
  | nestedType (b : DeclBody) (d : TypeDecl) (key : TypeKey) (more : List (DeclBody × TypeDecl)) :
      Tells r (⟨b, .nestedType d key⟩ :: more.map fun w => ⟨w.1, .nestedType w.2 key⟩)
      (.nestedType d.name.name key)

/-! ### Members that are added one by one -/

/-- A change that changes nothing. -/
theorem replaceFirst?_same {α : Type} (test : α → Bool) (list : List α) :
    replaceFirst? test (fun a => a) list = if list.any test then some list else none := by
  induction list with
  | nil => rfl
  | cons a rest ih =>
      rw [replaceFirst?, ih, List.any_cons]
      cases test a with
      | true => rfl
      | false =>
          rw [Bool.false_or]
          cases rest.any test <;> rfl

namespace MemberEntry

/-- The next member goes into an earlier one. -/
def joins (next m : MemberEntry) : Bool :=
  match next with
  | property p => p.modifiers.isPartial && m.isPartialProperty p.name
  | _ => isRepeatedBy next m

/-- A member with the next one in it. -/
def joined (next m : MemberEntry) : MemberEntry :=
  match next with
  | property p => m.withParts p
  | _ => m

/-- A member goes into the first one that it can go into, or is a new one. -/
theorem addTo_eq (members : List MemberEntry) (next : MemberEntry) :
    addTo members next = (replaceFirst? next.joins next.joined members).getD (members ++ [next]) := by
  have hrepeated : ∀ next : MemberEntry, (if members.any (isRepeatedBy next) then members else
      members ++ [next]) =
      (replaceFirst? (isRepeatedBy next) (fun m => m) members).getD (members ++ [next]) := by
    intro next
    rw [replaceFirst?_same]
    split <;> rfl
  cases next with
  | property p =>
      rw [addTo]
      by_cases hpartial : p.modifiers.isPartial
      · have htest : (property p).joins = isPartialProperty p.name :=
          funext fun m => by rw [joins, hpartial, Bool.true_and]
        rw [if_pos hpartial, htest]
        rfl
      · have hnone : ∀ list : List MemberEntry,
            replaceFirst? (property p).joins (property p).joined list = none := by
          intro list
          induction list with
          | nil => rfl
          | cons m rest ih =>
              rw [replaceFirst?, ih, joins, if_neg (by simp [hpartial])]
              rfl
        rw [if_neg hpartial, hnone]
        rfl
  | field _ | method _ | event _ | nestedType _ _ => exact hrepeated _

namespace Tells

variable {r : Registry}

/-- A single element is told by its own member. -/
theorem entry (w : WrittenMember) : Tells r [w] (w.entry r) := by
  obtain ⟨b, item⟩ := w
  cases item with
  | field d v => exact .field b d v none
  | property d => exact .property b d [] fun h => absurd rfl h
  | method d => exact .method b d []
  | event d name => exact .event b d name
  | nestedType d key => exact .nestedType b d key []

/-- A property stays partial or not when partial ones join it. -/
theorem isPartial_foldl_union {more : List (DeclBody × PropertyDecl)} {m : Modifiers}
    (several : more ≠ [] → m.isPartial) :
    (more.foldl (fun m w => m.union w.2.modifiers) m).isPartial = m.isPartial := by
  induction more generalizing m with
  | nil => rfl
  | cons w rest ih =>
      have hpartial : m.isPartial := several (List.cons_ne_nil _ _)
      have hunion : (m.union w.2.modifiers).isPartial := Modifiers.isPartial_union_left hpartial _
      rw [List.foldl_cons, ih fun _ => hunion, hunion, hpartial]

/-- What an element belongs to is what its member goes into. -/
theorem belongs_eq_joins {group : List WrittenMember} {m : MemberEntry} (tells : Tells r group m)
    (w : WrittenMember) :
    Grouping.belongs WrittenMember.shared? w group = (w.entry r).joins m := by
  obtain ⟨b, item⟩ := w
  rw [Grouping.belongs, Grouping.keyOf?]
  cases tells with
  | field _ _ _ _ | event _ _ _ =>
      cases item <;> simp [WrittenMember.shared?, WrittenMember.entry, joins, isRepeatedBy,
        isPartialProperty]
  | property _ d more several =>
      have hpartial := isPartial_foldl_union several
      cases item with
      | property d' | method d' =>
          cases h : d.modifiers.isPartial <;> cases h' : d'.modifiers.isPartial <;>
            simp [WrittenMember.shared?, WrittenMember.entry, joins, isRepeatedBy, isPartialProperty,
              hpartial, h, h']
      | field _ _ | event _ _ | nestedType _ _ =>
          simp [WrittenMember.shared?, WrittenMember.entry, joins, isRepeatedBy]
  | method _ d _ =>
      cases item with
      | property d' | method d' =>
          cases h : d.modifiers.isPartial <;> cases h' : d'.modifiers.isPartial <;>
            simp [WrittenMember.shared?, WrittenMember.entry, joins, isRepeatedBy, isPartialProperty, h, h']
      | field _ _ | event _ _ | nestedType _ _ =>
          simp [WrittenMember.shared?, WrittenMember.entry, joins, isRepeatedBy]
  | nestedType _ _ _ _ =>
      cases item <;> simp [WrittenMember.shared?, WrittenMember.entry, joins, isRepeatedBy,
        isPartialProperty]

/-- A member that an element goes into tells the group with the element. -/
theorem joined {group : List WrittenMember} {m : MemberEntry} (tells : Tells r group m) {w : WrittenMember}
    (belongs : Grouping.belongs WrittenMember.shared? w group = true) :
    Tells r (group ++ [w]) ((w.entry r).joined m) := by
  rw [tells.belongs_eq_joins] at belongs
  obtain ⟨b, item⟩ := w
  cases item with
  | property d' =>
      cases tells with
      | property b₀ d more several =>
          have hpartial : d.modifiers.isPartial := by
            rw [← isPartial_foldl_union several]
            rw [WrittenMember.entry, MemberEntry.joins, Bool.and_eq_true, isPartialProperty,
              Bool.and_eq_true] at belongs
            exact belongs.2.2
          have hmore := Tells.property (r := r) b₀ d (more ++ [(b, d')]) fun _ => hpartial
          rw [List.map_append, List.map_append, List.foldl_append] at hmore
          exact hmore
      | field _ _ _ _ | method _ _ _ | event _ _ _ | nestedType _ _ _ _ =>
          simp [WrittenMember.entry, MemberEntry.joins, isPartialProperty] at belongs
  | method d' =>
      cases tells with
      | method b₀ d more =>
          have hmore := Tells.method (r := r) b₀ d (more ++ [(b, d')])
          rw [List.map_append] at hmore
          exact hmore
      | field _ _ _ _ | property _ _ _ _ | event _ _ _ | nestedType _ _ _ _ =>
          simp [WrittenMember.entry, MemberEntry.joins, isRepeatedBy] at belongs
  | nestedType d' key' =>
      cases tells with
      | nestedType b₀ d key more =>
          obtain rfl : key = key' := by
            simpa [WrittenMember.entry, MemberEntry.joins, isRepeatedBy] using belongs
          have hmore := Tells.nestedType (r := r) b₀ d key (more ++ [(b, d')])
          rw [List.map_append] at hmore
          exact hmore
      | field _ _ _ _ | property _ _ _ _ | event _ _ _ | method _ _ _ =>
          simp [WrittenMember.entry, MemberEntry.joins, isRepeatedBy] at belongs
  | field _ _ | event _ _ =>
      cases tells <;> simp [WrittenMember.entry, MemberEntry.joins, isRepeatedBy] at belongs

/-- Members that tell groups tell them when one more element is there. -/
theorem forall₂_addTo {groups : List (List WrittenMember)} {members : List MemberEntry}
    (tells : List.Forall₂ (Tells r) groups members) (w : WrittenMember) :
    List.Forall₂ (Tells r) (Grouping.add WrittenMember.shared? groups w) (addTo members (w.entry r)) := by
  rw [addTo_eq, Grouping.add]
  have hjoined : ∀ group m, Tells r group m → Grouping.belongs WrittenMember.shared? w group = true →
      Tells r (group ++ [w]) ((w.entry r).joined m) := fun _ _ h => h.joined
  rcases replaceFirst?_forall₂ (fun group m h => h.belongs_eq_joins w) hjoined tells with
    ⟨hnone, hnone'⟩ | ⟨l, l', hl, hl', hlater⟩
  · rw [hnone, hnone']
    exact List.rel_append tells (.cons (.entry w) .nil)
  · rw [hl, hl']
    exact hlater

/-- Members that are added one by one tell the groups of what is written. -/
theorem forall₂_foldl_addTo (written : List WrittenMember) :
    List.Forall₂ (Tells r) (written.foldl (Grouping.add WrittenMember.shared?) [])
      ((written.map (·.entry r)).foldl addTo []) := by
  rw [List.foldl_map]
  exact List.rel_foldl (P := List.Forall₂ (Tells r)) (R := Eq)
    (fun _ _ h _ w hw => hw ▸ forall₂_addTo h _) .nil (List.forall₂_eq_eq_eq ▸ rfl)

/-- Values of fields change nothing of what members tell. -/
theorem settled {values : FieldValues} (nodup : values.keys.Nodup) (owner : TypeKey)
    {group : List WrittenMember} {m : MemberEntry} (tells : Tells r group m) :
    Tells r group (values.settled owner m) := by
  cases tells with
  | field b d v value? =>
      rw [FieldValues.settled_field nodup, FieldValues.settledField]
      split
      · exact .field b d v _
      · exact .field b d v value?
  | property b d more several => rw [FieldValues.settled_property]; exact .property b d more several
  | method b d more => rw [FieldValues.settled_of_field?_eq_none _ _ rfl]; exact .method b d more
  | event b d name => rw [FieldValues.settled_of_field?_eq_none _ _ rfl]; exact .event b d name
  | nestedType b d key more =>
      rw [FieldValues.settled_of_field?_eq_none _ _ rfl]; exact .nestedType b d key more

end Tells

end MemberEntry

/-! ### Registered declarations -/

namespace Registration

/-- A declaration is registered as a part of a type: the type has the key of the declaration, and the types
around it are registered as well. -/
structure Admits (g : Registration) (p : DeclPlace) (key : TypeKey) : Prop where
  key_eq : p.site.key = key
  containers : ∀ d ∈ p.site.containers, (g.declared.get? d.id).isSome
  entry : (g.registry.get? key).isSome

namespace Admits

variable {g : Registration} {p : DeclPlace} {key : TypeKey}

/-- What is registered stays so. -/
theorem add (admits : g.Admits p key) (o : Origin) (s : DeclSite) : (g.add o s).Admits p key where
  key_eq := admits.key_eq
  containers d hd := by
    rcases add_cases g o s with ⟨r, -, -, hadd⟩ | ⟨-, hdeclared⟩
    · rw [hadd, Assoc.get?_insert]
      split
      · rfl
      · exact admits.containers d hd
    · rw [hdeclared]
      exact admits.containers d hd
  entry := by
    obtain ⟨e, he⟩ := Option.isSome_iff_exists.1 admits.entry
    obtain ⟨e', he', -⟩ := (keeps_add g o s).entry key e he
    exact Option.isSome_iff_exists.2 ⟨e', he'⟩

/-- A declaration that becomes a part of a type is registered. -/
theorem of_place {r : Registry} {t : SourceTree} {s : DeclSite} (hopen : g.isOpen s)
    (hplace : place g.registry t.origin s = .ok r) : (g.add t.origin s).Admits ⟨t, s⟩ s.key := by
  have hadd : g.add t.origin s =
      { g with registry := r, declared := g.declared.insert s.decl.id s.key } := by
    rw [Registration.add, if_pos hopen, hplace]
  obtain ⟨e, he, -⟩ := (place_eq_ok hplace).2
  refine ⟨rfl, fun d hd => ?_, ?_⟩
  · rw [hadd, Assoc.get?_insert]
    split
    · rfl
    · exact List.all_eq_true.1 hopen d hd
  · rw [hadd]
    exact Option.isSome_iff_exists.2 ⟨e, he⟩

end Admits

/-- Every number that is registered is that of a registered declaration, also if other ones are left out. -/
theorem exists_admits (trees : List SourceTree) : ∀ id key, (ofTrees trees).declared.get? id = some key →
    ∃ p ∈ DeclPlace.ofTrees trees, p.site.decl.id = id ∧ (ofTrees trees).Admits p key := by
  refine induction_ofTrees (P := fun g => ∀ id key, g.declared.get? id = some key →
    ∃ p ∈ DeclPlace.ofTrees trees, p.site.decl.id = id ∧ g.Admits p key) (fun _ _ h => by cases h)
    (fun g path hg id key h => ?_) fun t ht s hs g hg id key h => ?_
  · obtain ⟨p, hp, hid, admits⟩ := hg id key h
    exact ⟨p, hp, hid, admits.key_eq, admits.containers, admits.entry⟩
  · by_cases hsame : g.declared.get? id = some key
    · obtain ⟨p, hp, hid, admits⟩ := hg id key hsame
      exact ⟨p, hp, hid, admits.add t.origin s⟩
    · rcases add_cases g t.origin s with ⟨r, hopen, hplace, hadd⟩ | ⟨-, hdeclared⟩
      · rw [hadd, Assoc.get?_insert] at h
        split at h
        · rename_i hid
          cases h
          exact ⟨⟨t, s⟩, DeclPlace.mem_ofTrees.2 ⟨ht, hs⟩, hid.symm, .of_place hopen hplace⟩
        · exact absurd h hsame
      · rw [hdeclared] at h
        exact absurd h hsame

variable {trees : List SourceTree} (hids : ((DeclPlace.ofTrees trees).map (·.site.decl.id)).Nodup)
include hids

/-- A declaration that has a number is registered. -/
theorem admits_of_declared {p : DeclPlace} (hp : p ∈ DeclPlace.ofTrees trees) {key : TypeKey}
    (h : (ofTrees trees).declared.get? p.site.decl.id = some key) : (ofTrees trees).Admits p key := by
  obtain ⟨q, hq, hid, admits⟩ := exists_admits trees _ key h
  rwa [List.inj_on_of_nodup_map hids hq hp hid] at admits

omit hids

/-- The declarations that are registered under a key: the trees in order, and in each its declarations in the
order of its text. -/
def partsOf (g : Registration) (trees : List SourceTree) (key : TypeKey) : List DeclPlace :=
  (DeclPlace.ofTrees trees).filter fun p => g.declared.get? p.site.decl.id = some key

/-- What is written in the registered declarations of a type. -/
def written (g : Registration) (trees : List SourceTree) (key : TypeKey) : List WrittenMember :=
  (g.partsOf trees key).flatMap fun p =>
    (bodyOf (.ofTrees g.registry trees) p.tree p.site).written g.declared

include hids

/-- The bodies of a type are those of its registered declarations. -/
theorem filter_bodies (key : TypeKey) : ((ofTrees trees).bodies trees).filter (·.owner = key) =
    ((ofTrees trees).partsOf trees key).map fun p =>
      bodyOf (.ofTrees (ofTrees trees).registry trees) p.tree p.site := by
  rw [bodies, partsOf, DeclPlace.ofTrees, List.filter_flatMap, List.filter_flatMap, List.map_flatMap]
  refine List.flatMap_congr fun t ht => ?_
  rw [bodiesIn, List.filter_filterMap, List.filter_map, List.map_map, ← List.filterMap_eq_map,
    List.filterMap_filter]
  refine List.filterMap_congr fun s hs => ?_
  dsimp only [Function.comp_apply]
  by_cases hpart : (ofTrees trees).declared.get? s.decl.id = some key
  · have hkey := (admits_of_declared hids (p := ⟨t, s⟩) (DeclPlace.mem_ofTrees.2 ⟨ht, hs⟩) hpart).key_eq
    rw [if_pos (decide_eq_true hpart), hpart, Option.map_some, Option.filter_some,
      if_pos (decide_eq_true rfl), bodyOf, hkey]
  · rw [if_neg (mt of_decide_eq_true hpart), Option.filter_eq_none_iff]
    intro b hb
    obtain ⟨owner, howner, rfl⟩ := Option.map_eq_some_iff.1 hb
    exact fun hkey => hpart (howner.trans (congrArg some (of_decide_eq_true hkey)))

/-- The declarations of a type declare what is written in them. -/
theorem declaredIn_eq_map_written (key : TypeKey) :
    (ofTrees trees).declaredIn ((ofTrees trees).bodies trees) key =
    ((ofTrees trees).written trees key).map (·.entry (ofTrees trees).registry) := by
  rw [declaredIn, filter_bodies hids, List.flatMap_map, written, List.map_flatMap]
  exact List.flatMap_congr fun p _ => DeclBody.members_eq_map_written _ _ _

end Registration

/-! ### Completed types -/

namespace Completion

/-- What is written in the declarations of a completed type falls into groups that the members of the type
tell, one by each. -/
theorem members_told {trees : List SourceTree}
    (hids : ((DeclPlace.ofTrees trees).map (·.site.decl.id)).Nodup) {key : TypeKey} {e : TypeEntry}
    (he : (ofTrees trees).registry.get? key = some e) :
    let g := Registration.ofTrees trees
    ∃ groups, Grouping WrittenMember.shared? (g.written trees key) groups ∧
      List.Forall₂ (MemberEntry.Tells g.registry) groups e.members := by
  intro g
  refine ⟨_, Grouping.foldl_add WrittenMember.shared? (g.written trees key), ?_⟩
  have htold := MemberEntry.Tells.forall₂_foldl_addTo (r := g.registry) (g.written trees key)
  rw [← Registration.declaredIn_eq_map_written hids] at htold
  rw [members_eq_declaredIn trees he, List.forall₂_map_right_iff]
  exact htold.imp fun group m tells => tells.settled (ConstantFields.nodup_evaluateAll _) key

/-- The members of completed types are the ones that registered declarations are written with, also when
other declarations are left out.  A declaration that is registered is so together with the types around it,
and its type is completed.  What is written in the declarations of a type, tree by tree and in the order of
the text, falls into groups, in the order of their first elements; everything is in one group, once.  The
members of the type are told by the groups, one by each. -/
theorem members_grouped {trees : List SourceTree}
    (hids : ((DeclPlace.ofTrees trees).map (·.site.decl.id)).Nodup) :
    let g := Registration.ofTrees trees
    (∀ p ∈ DeclPlace.ofTrees trees, ∀ key, g.declared.get? p.site.decl.id = some key →
      p.site.key = key ∧ (∀ d ∈ p.site.containers, (g.declared.get? d.id).isSome) ∧
        ((ofTrees trees).registry.get? key).isSome) ∧
      ∀ key e, (ofTrees trees).registry.get? key = some e →
        ∃ groups, Grouping WrittenMember.shared? (g.written trees key) groups ∧
          groups.flatten.Perm (g.written trees key) ∧
          List.Forall₂ (MemberEntry.Tells g.registry) groups e.members := by
  intro g
  refine ⟨fun p hp key hkey => ?_, fun key e he => ?_⟩
  · have admits := Registration.admits_of_declared hids hp hkey
    refine ⟨admits.key_eq, admits.containers, ?_⟩
    rw [(alike_ofRegistration _ _).isSome_get?]
    exact admits.entry
  · obtain ⟨groups, hgrouping, htold⟩ := members_told hids he
    exact ⟨groups, hgrouping, hgrouping.perm, htold⟩

/-- The members of the type that is declared first in documents, if they can be read but not registered
without errors: their names, and how many declarations each property has. -/
def firstMembers? (documents : List Document) : Option (List (String × Nat)) := do
  let trees ← (Compilation.read documents).toOption
  let p ← (DeclPlace.ofTrees trees).head?
  let e ← (ofTrees trees).registry.get? p.site.key
  if (Registration.ofTrees trees).errors.isEmpty then none
  else some (e.members.map fun m => (m.name, (m.property?.map (·.parts.length)).getD 0))

theorem of_firstMembers?_eq_some {documents : List Document} {names : List (String × Nat)}
    (h : firstMembers? documents = some names) :
    ∃ trees key e, Compilation.read documents = .ok trees ∧ (Registration.ofTrees trees).errors ≠ [] ∧
      (ofTrees trees).registry.get? key = some e ∧
      e.members.map (fun m => (m.name, (m.property?.map (·.parts.length)).getD 0)) = names := by
  unfold firstMembers? at h
  obtain ⟨trees, hread, h⟩ := Option.bind_eq_some_iff.1 h
  obtain ⟨p, -, h⟩ := Option.bind_eq_some_iff.1 h
  obtain ⟨e, he, h⟩ := Option.bind_eq_some_iff.1 h
  split at h
  · cases h
  · rename_i herrors
    exact ⟨trees, p.site.key, e, eq_ok_of_toOption hread, fun hnil => herrors (by rw [hnil]; rfl), he,
      Option.some.inj h⟩

/-- A class with a property that has two parts, and another class of its name that is left out. -/
def repeatedClass : List Document :=
  [⟨"a.cs", "partial class P\x7bint x,y;partial int A\x7bget;\x7dpartial int A=>x;\x7d" ++
      "class P\x7bclass L\x7b\x7d\x7d", .source⟩]

/-- The class has three members, and what is written in the other one is none of them. -/
theorem members_grouped_repeatedClass :
    ∃ trees key e, Compilation.read repeatedClass = .ok trees ∧ (Registration.ofTrees trees).errors ≠ [] ∧
      (ofTrees trees).registry.get? key = some e ∧
      e.members.map (fun m => (m.name, (m.property?.map (·.parts.length)).getD 0)) =
        [("x", 0), ("y", 0), ("A", 2)] ∧
      ∃ groups, groups.flatten.Perm ((Registration.ofTrees trees).written trees key) ∧ groups.length = 3 ∧
        List.Forall₂ (MemberEntry.Tells (Registration.ofTrees trees).registry) groups e.members := by
  obtain ⟨trees, key, e, hread, herrors, he, hnames⟩ := of_firstMembers?_eq_some
    (show firstMembers? repeatedClass = some [("x", 0), ("y", 0), ("A", 2)] by decide +kernel)
  obtain ⟨groups, -, hperm, htold⟩ := (members_grouped (DeclPlace.nodup_ids_of_read hread)).2 key e he
  have hlength : groups.length = 3 := by
    rw [htold.length_eq, ← List.length_map, hnames]
    rfl
  exact ⟨trees, key, e, hread, herrors, he, hnames, groups, hperm, hlength, htold⟩

end Completion

end Graft
