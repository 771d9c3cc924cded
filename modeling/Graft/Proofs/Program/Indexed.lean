/-
Module: Graft.Proofs.Program.Indexed
Purpose: The agreement of the registered types with the lists and namespaces they are found by.
Main exports: NamespaceTree.find?_inj, Registry.Indexed, Registry.Distinct,
  Registry.Indexed.findNested?_eq_some_iff, Registry.Indexed.findIn?_eq_some_iff,
  Registry.Indexed.wellFounded_holds, Registry.Indexed.displayName?_eq

A registered type is noted by its key, in the order of registration, and either in the list of the type
that holds it or in its namespace.  Each of these tells where the type is, and they agree.  A type is
registered after the one that holds it, so that there is no endless chain of types around a type.
-/
import Graft.Proofs.Program.Alike
import Graft.Proofs.Program.Identity

namespace Graft

/-! ### Namespaces -/

namespace NamespaceTree

variable {t : NamespaceTree}

theorem link?_of_child? {parent node : NamespaceId} {name : String} (h : t.child? parent name = some node) :
    t.link? node = some (parent, name) := by
  obtain ⟨n, hn, rfl⟩ := Option.map_eq_some_iff.1 h
  obtain ⟨hlt, heq, -⟩ := List.findIdx?_eq_some_iff_getElem.1 hn
  have hlink : t.links[n] = (parent, name) := by simpa using heq
  exact (List.getElem?_eq_getElem hlt).trans (congrArg some hlink)

theorem descend?_append (start : NamespaceId) (path rest : List String) :
    t.descend? start (path ++ rest) = (t.descend? start path).bind (t.descend? · rest) := by
  induction path generalizing start with
  | nil => rfl
  | cons name path ih =>
      rw [List.cons_append, descend?, descend?]
      cases t.child? start name with
      | none => rfl
      | some child => exact ih child

theorem find?_concat (path : List String) (name : String) :
    t.find? (path ++ [name]) = (t.find? path).bind (t.child? · name) := by
  rw [find?, find?, descend?_append]
  refine Option.bind_congr fun node _ => ?_
  cases h : t.child? node name <;> simp [descend?, h]

/-- A namespace with a path has the namespaces on the way to it. -/
theorem isSome_find?_of_append {path more : List String} (h : (t.find? (path ++ more)).isSome) :
    (t.find? path).isSome := by
  rw [find?, descend?_append, Option.isSome_bind] at h
  exact ((Option.any_eq_true_iff_get ..).1 h).1

/-- A namespace has one path. -/
theorem find?_inj {path other : List String} {node : NamespaceId} (h : t.find? path = some node)
    (h' : t.find? other = some node) : path = other := by
  have hroot : ∀ (path : List String) (name : String), t.find? (path ++ [name]) ≠ some root := by
    intro path name hfound
    rw [find?_concat] at hfound
    obtain ⟨parent, -, hchild⟩ := Option.bind_eq_some_iff.1 hfound
    cases link?_of_child? hchild
  induction path using List.reverseRecOn generalizing other node with
  | nil =>
      obtain rfl : root = node := Option.some.inj h
      rcases List.eq_nil_or_concat other with rfl | ⟨other, name, rfl⟩
      · rfl
      · exact absurd (List.concat_eq_append ▸ h') (hroot other name)
  | append_singleton path name ih =>
      rcases List.eq_nil_or_concat other with rfl | ⟨other, name', rfl⟩
      · obtain rfl : root = node := Option.some.inj h'
        exact absurd h (hroot path name)
      · rw [List.concat_eq_append, find?_concat] at h'
        rw [find?_concat] at h
        obtain ⟨parent, hparent, hchild⟩ := Option.bind_eq_some_iff.1 h
        obtain ⟨parent', hparent', hchild'⟩ := Option.bind_eq_some_iff.1 h'
        have hlink := (link?_of_child? hchild).symm.trans (link?_of_child? hchild')
        obtain ⟨rfl, rfl⟩ := Prod.mk.inj (Option.some.inj hlink)
        rw [List.concat_eq_append, ih hparent hparent']

/-- Namespaces that are created have no types. -/
theorem types_createFrom (path : List String) (t : NamespaceTree) (start : NamespaceId) :
    (t.createFrom start path).2.residents = t.residents ∧ (t.createFrom start path).2.homes = t.homes := by
  induction path generalizing t start with
  | nil => exact ⟨rfl, rfl⟩
  | cons name rest ih =>
      have hchild : (t.createChild start name).2.residents = t.residents ∧
          (t.createChild start name).2.homes = t.homes := by
        unfold createChild
        split <;> exact ⟨rfl, rfl⟩
      obtain ⟨hresidents, hhomes⟩ := ih (t.createChild start name).2 (t.createChild start name).1
      exact ⟨hresidents.trans hchild.1, hhomes.trans hchild.2⟩

theorem mem_residents_register {home : NamespaceId} {name : String} {key : TypeKey} {x : Resident} :
    x ∈ (t.register home name key).residents ↔ x ∈ t.residents ∨ x = ⟨home, name, key⟩ := by
  unfold register
  dsimp only
  split
  · rename_i there
    exact ⟨.inl, fun h => h.elim id fun hx => hx ▸ there⟩
  · rw [List.mem_append, List.mem_singleton]

theorem nodup_residents_register (nodup : t.residents.Nodup) (home : NamespaceId) (name : String)
    (key : TypeKey) :
    (t.register home name key).residents.Nodup := by
  unfold register
  dsimp only
  split
  · exact nodup
  · rename_i new
    exact nodup.append (List.nodup_singleton _) (List.disjoint_singleton.2 new)

theorem mem_typesNamed {home : NamespaceId} {name : String} {key : TypeKey} :
    key ∈ t.typesNamed home name ↔ ⟨home, name, key⟩ ∈ t.residents := by
  rw [typesNamed, List.mem_map]
  constructor
  · rintro ⟨⟨home', name', key'⟩, hmem, rfl⟩
    obtain ⟨hresident, hsame⟩ := List.mem_filter.1 hmem
    obtain ⟨rfl, rfl⟩ : home' = home ∧ name' = name := by simpa using hsame
    exact hresident
  · exact fun hresident => ⟨_, List.mem_filter.2 ⟨hresident, by simp⟩, rfl⟩

theorem nodup_typesNamed (nodup : t.residents.Nodup) (home : NamespaceId) (name : String) :
    (t.typesNamed home name).Nodup := by
  refine (nodup.filter _).map_on fun x hx y hy hkey => ?_
  obtain ⟨-, hx⟩ := List.mem_filter.1 hx
  obtain ⟨-, hy⟩ := List.mem_filter.1 hy
  obtain ⟨hxhome, hxname⟩ : x.home = home ∧ x.name = name := by simpa using hx
  obtain ⟨hyhome, hyname⟩ : y.home = home ∧ y.name = name := by simpa using hy
  cases x
  cases y
  simp_all

end NamespaceTree

namespace Registry

/-! ### Registration -/

/-- A type that is registered is new.  If a type holds it that one is there, and the type comes last in its
list; else the type comes to its namespace. -/
theorem register_cases {r r' : Registry} {e : TypeEntry} (h : r.register e = .ok r') :
    r.get? e.key = none ∧
      ((∃ c, e.container? = some c ∧ (r.get? c).isSome ∧
          r' = ⟨r.types.insert e.key e, r.nested.insert c (r.nestedTypes c ++ [e.key]), r.spaces⟩) ∨
        e.container? = none ∧ r' = ⟨r.types.insert e.key e, r.nested,
          (r.spaces.createPath e.space).2.register (r.spaces.createPath e.space).1 e.name e.key⟩) := by
  refine ⟨(register_eq_ok h).1, ?_⟩
  have hholder := (register_eq_ok h).2.1
  unfold register at h
  split at h
  · cases h
  · split at h
    · rename_i c hc
      split at h
      · cases h
      · cases h
        exact .inl ⟨c, hc, hholder c hc, rfl⟩
    · rename_i hnone
      cases h
      exact .inr ⟨hnone, rfl⟩

/-- A type is held directly by another one. -/
def Holds (r : Registry) (c key : TypeKey) : Prop := ∃ e, r.get? key = some e ∧ e.container? = some c

/-- A type that no type holds has a name, and a namespace that is there. -/
def Stands (r : Registry) (home : NamespaceId) (name : String) (key : TypeKey) : Prop :=
  ∃ e, r.get? key = some e ∧ e.container? = none ∧ e.name = name ∧ r.spaces.find? e.space = some home

/-- The lists and namespaces have exactly the registered types, each once. -/
structure Indexed (r : Registry) : Prop where
  nodup_keys : r.types.keys.Nodup
  key : ∀ key e, r.get? key = some e → e.key = key
  housed : r.Housed
  mem_nestedTypes : ∀ c key, key ∈ r.nestedTypes c ↔ r.Holds c key
  nodup_nestedTypes : ∀ c, (r.nestedTypes c).Nodup
  mem_residents : ∀ home name key, ⟨home, name, key⟩ ∈ r.spaces.residents ↔ r.Stands home name key
  nodup_residents : r.spaces.residents.Nodup
  home : ∀ home key, r.spaces.homeOf? key = some home ↔ ∃ name, r.Stands home name key
  /-- A type comes after the one that holds it. -/
  later : ∀ c key, r.Holds c key → r.types.keys.idxOf c < r.types.keys.idxOf key

variable {r r' : Registry}

/-- The entry of a type in a registry with the same types. -/
theorem Alike.entry (alike : r.Alike r') {key : TypeKey} {e : TypeEntry} (he : r.get? key = some e) :
    ∃ e', r'.get? key = some e' ∧ e'.bare = e.bare := by
  have hbare := alike.bare key
  rw [he] at hbare
  exact Option.map_eq_some_iff.1 hbare.symm

theorem Alike.holds (alike : r.Alike r') {c key : TypeKey} (h : r.Holds c key) : r'.Holds c key := by
  obtain ⟨e, he, hcontainer⟩ := h
  obtain ⟨e', he', hbare⟩ := alike.entry he
  exact ⟨e', he', (congrArg TypeEntry.container? hbare).trans hcontainer⟩

theorem Alike.stands (alike : r.Alike r') {home : NamespaceId} {name : String} {key : TypeKey}
    (h : r.Stands home name key) : r'.Stands home name key := by
  obtain ⟨e, he, hnone, hname, hfound⟩ := h
  obtain ⟨e', he', hbare⟩ := alike.entry he
  have hspace : e'.space = e.space := (congrArg TypeEntry.space hbare :)
  exact ⟨e', he', (congrArg TypeEntry.container? hbare).trans hnone,
    (congrArg TypeEntry.name hbare).trans hname, by rw [hspace, ← alike.spaces, hfound]⟩

/-- Each type is held by one other at most. -/
theorem Holds.unique {c c' key : TypeKey} (h : r.Holds c key) (h' : r.Holds c' key) : c = c' := by
  obtain ⟨e, he, hc⟩ := h
  obtain ⟨e', he', hc'⟩ := h'
  obtain rfl := Option.some.inj (he.symm.trans he')
  exact Option.some.inj (hc.symm.trans hc')

/-- A type that stands in a namespace is held by none. -/
theorem Stands.not_holds {home : NamespaceId} {name : String} {c key : TypeKey}
    (h : r.Stands home name key) :
    ¬r.Holds c key := by
  rintro ⟨e', he', hc⟩
  obtain ⟨e, he, hnone, -⟩ := h
  obtain rfl := Option.some.inj (he.symm.trans he')
  cases hnone.symm.trans hc

theorem Stands.unique {home home' : NamespaceId} {name name' : String} {key : TypeKey}
    (h : r.Stands home name key) (h' : r.Stands home' name' key) : home = home' ∧ name = name' := by
  obtain ⟨e, he, -, hname, hfound⟩ := h
  obtain ⟨e', he', -, hname', hfound'⟩ := h'
  obtain rfl := Option.some.inj (he.symm.trans he')
  exact ⟨Option.some.inj (hfound.symm.trans hfound'), hname.symm.trans hname'⟩

namespace Indexed

theorem empty : Registry.empty.Indexed where
  nodup_keys := .nil
  key _ _ h := by cases h
  housed _ _ h := by cases h
  mem_nestedTypes _ _ := iff_of_false (fun h => by cases h) (by rintro ⟨_, h, -⟩; cases h)
  nodup_nestedTypes _ := .nil
  mem_residents _ _ _ := iff_of_false (fun h => by cases h) (by rintro ⟨_, h, -⟩; cases h)
  nodup_residents := .nil
  home _ _ := iff_of_false (fun h => by cases h) (by rintro ⟨_, _, h, -⟩; cases h)
  later _ _ h := by
    obtain ⟨_, h, _⟩ := h
    cases h

/-- Members, attributes and further parts of types change nothing. -/
theorem of_alike (h : r.Indexed) (alike : r.Alike r') (keys : r'.types.keys = r.types.keys) :
    r'.Indexed := by
  have hholds : ∀ c key, r'.Holds c key ↔ r.Holds c key := fun _ _ => ⟨alike.symm.holds, alike.holds⟩
  have hstands : ∀ home name key, r'.Stands home name key ↔ r.Stands home name key :=
    fun _ _ _ => ⟨alike.symm.stands, alike.stands⟩
  exact {
    nodup_keys := keys ▸ h.nodup_keys
    key := fun key e' he' => by
      obtain ⟨e, he, hbare⟩ := alike.symm.entry he'
      exact (congrArg TypeEntry.key hbare).symm.trans (h.key key e he)
    housed := fun key e' he' hnone => by
      obtain ⟨e, he, hbare⟩ := alike.symm.entry he'
      have hspace : e.space = e'.space := (congrArg TypeEntry.space hbare :)
      rw [← alike.spaces, ← hspace]
      exact h.housed key e he ((congrArg TypeEntry.container? hbare).trans hnone)
    mem_nestedTypes := fun c key => by rw [← alike.nestedTypes, h.mem_nestedTypes, hholds]
    nodup_nestedTypes := fun c => by rw [← alike.nestedTypes]; exact h.nodup_nestedTypes c
    mem_residents := fun home name key => by rw [← alike.spaces, h.mem_residents, hstands]
    nodup_residents := alike.spaces ▸ h.nodup_residents
    home := fun home key => by
      rw [← alike.spaces, h.home]
      exact exists_congr fun name => (hstands home name key).symm
    later := fun c key hc => by
      rw [keys]
      exact h.later c key ((hholds c key).1 hc) }

theorem modify (h : r.Indexed) (key : TypeKey) {f : TypeEntry → TypeEntry} (hf : ∀ e, (f e).bare = e.bare) :
    (r.modify key f).Indexed := by
  refine h.of_alike (Alike.modify r key hf).symm ?_
  unfold Registry.modify
  split
  · rename_i e he
    exact Assoc.keys_insert_of_mem (Assoc.mem_keys_of_get? he) _
  · rfl

/-- A namespace that is created changes where no type stands. -/
theorem of_within (h : r.Indexed) {spaces : NamespaceTree} (within : r.spaces.Within spaces)
    {home : NamespaceId} {name : String} {key : TypeKey} :
    Stands { r with spaces } home name key ↔ r.Stands home name key := by
  constructor
  · rintro ⟨e, he, hnone, hname, hfound⟩
    obtain ⟨home', hhome⟩ := Option.isSome_iff_exists.1 (h.housed key e he hnone)
    have hsame := hfound.symm.trans (NamespaceTree.descend?_within within hhome)
    exact ⟨e, he, hnone, hname, hhome.trans hsame.symm⟩
  · rintro ⟨e, he, hnone, hname, hfound⟩
    exact ⟨e, he, hnone, hname, NamespaceTree.descend?_within within hfound⟩

theorem createSpace (h : r.Indexed) (path : List String) : (r.createSpace path).Indexed := by
  have hwithin : r.spaces.Within (r.spaces.createPath path).2 :=
    (NamespaceTree.createFrom_spec path r.spaces NamespaceTree.root).1
  obtain ⟨hresidents, hhomes⟩ := NamespaceTree.types_createFrom path r.spaces NamespaceTree.root
  exact { h with
    housed := h.housed.createSpace path
    mem_residents := fun home name key => by
      rw [Registry.createSpace, h.of_within hwithin, ← h.mem_residents]
      exact Eq.to_iff (congrArg (_ ∈ ·) hresidents)
    nodup_residents := hresidents.symm ▸ h.nodup_residents
    home := fun home key => by
      simp only [Registry.createSpace, h.of_within hwithin, ← h.home]
      exact Eq.to_iff (congrArg (fun homes => Assoc.get? homes key = some home) hhomes) }

/-- A type that is registered comes after the others. -/
theorem later_insert (h : r.Indexed) {e : TypeEntry} (new : r.get? e.key = none)
    (held : ∀ c, e.container? = some c → (r.get? c).isSome) :
    ∀ c key, r.Holds c key ∨ key = e.key ∧ e.container? = some c →
      (r.types.insert e.key e).keys.idxOf c < (r.types.insert e.key e).keys.idxOf key := by
  have hnew : e.key ∉ r.types.keys := fun hmem => by
    have hsome := Assoc.get?_isSome_of_mem_keys hmem
    rw [show r.types.get? e.key = none from new] at hsome
    cases hsome
  have hkeys : (r.types.insert e.key e).keys = r.types.keys ++ [e.key] := by
    rw [Assoc.keys, Assoc.entries_insert_of_not_mem hnew, List.map_append]
    rfl
  rintro c key (hc | ⟨rfl, hc⟩)
  · have hlt := h.later c key hc
    obtain ⟨old, hold, -⟩ := hc
    have hkey : key ∈ r.types.keys := Assoc.mem_keys_of_get? hold
    have hcmem : c ∈ r.types.keys := List.idxOf_lt_length_iff.1 (hlt.trans (List.idxOf_lt_length_iff.2 hkey))
    rwa [hkeys, List.idxOf_append_of_mem hcmem, List.idxOf_append_of_mem hkey]
  · obtain ⟨holder, hholder⟩ := Option.isSome_iff_exists.1 (held c hc)
    have hcmem : c ∈ r.types.keys := Assoc.mem_keys_of_get? hholder
    rw [hkeys, List.idxOf_append_of_mem hcmem, List.idxOf_append_of_notMem hnew]
    exact Nat.lt_of_lt_of_le (List.idxOf_lt_length_iff.2 hcmem) (Nat.le_add_right _ _)

theorem register (h : r.Indexed) {e : TypeEntry} (hregister : r.register e = .ok r') : r'.Indexed := by
  obtain ⟨new, held, hget⟩ := register_eq_ok hregister
  have hhoused := h.housed.register hregister
  have hkey : ∀ key e', r'.get? key = some e' → e'.key = key := by
    intro key e' he'
    rw [hget] at he'
    split at he'
    · rename_i heq
      cases he'
      exact heq.symm
    · exact h.key key e' he'
  have hholds : ∀ c key, r'.Holds c key ↔ r.Holds c key ∨ key = e.key ∧ e.container? = some c := by
    intro c key
    simp only [Holds, hget]
    by_cases heq : key = e.key
    · simp [heq, new]
    · simp [heq]
  have hlater := h.later_insert new held
  -- `e` stands where its namespace is; the other types stand where they did
  have hstands : r.spaces.Within r'.spaces → ∀ home name key, r'.Stands home name key ↔
      r.Stands home name key ∨
        key = e.key ∧ e.container? = none ∧ e.name = name ∧ r'.spaces.find? e.space = some home := by
    intro within home name key
    rw [← h.of_within within]
    simp only [Stands, hget]
    by_cases heq : key = e.key
    · subst heq
      have hnone : ∀ e', ({ r with spaces := r'.spaces } : Registry).get? e.key ≠ some e' := fun e' he' => by
        cases he'.symm.trans new
      simp [hnone]
    · simp [heq]
      rfl
  obtain ⟨-, ⟨c, hc, -, rfl⟩ | ⟨hnone, rfl⟩⟩ := register_cases hregister
  · have hnested : ∀ c', nestedTypes ⟨r.types.insert e.key e, r.nested.insert c (r.nestedTypes c ++ [e.key]),
        r.spaces⟩ c' =
        if c' = c then r.nestedTypes c ++ [e.key] else r.nestedTypes c' := by
      intro c'
      rw [nestedTypes, Assoc.get?_insert]
      split <;> rfl
    have hnot : e.key ∉ r.nestedTypes c := fun hmem => by
      obtain ⟨e', he', -⟩ := (h.mem_nestedTypes c e.key).1 hmem
      cases new.symm.trans he'
    exact {
      nodup_keys := Assoc.nodup_keys_insert h.nodup_keys e.key e
      key := hkey
      housed := hhoused
      mem_nestedTypes := fun c' key => by
        rw [hholds, hnested, hc, ← h.mem_nestedTypes]
        by_cases hsame : c' = c
        · simp [hsame]
        · simp [hsame, Ne.symm hsame]
      nodup_nestedTypes := fun c' => by
        rw [hnested]
        split
        · exact (h.nodup_nestedTypes c).append (List.nodup_singleton _) (List.disjoint_singleton.2 hnot)
        · exact h.nodup_nestedTypes c'
      mem_residents := fun home name key => by
        rw [hstands (List.prefix_refl _), hc, ← h.mem_residents]
        simp
      nodup_residents := h.nodup_residents
      home := fun home key => by
        simp only [hstands (List.prefix_refl _), hc]
        simpa using h.home home key
      later := fun c' key hcontainer => hlater c' key ((hholds c' key).1 hcontainer) }
  · obtain ⟨hwithin, hfound⟩ := NamespaceTree.createFrom_spec e.space r.spaces NamespaceTree.root
    obtain ⟨hresidents, hhomes⟩ := NamespaceTree.types_createFrom e.space r.spaces NamespaceTree.root
    have hspace : NamespaceTree.find?
        ((r.spaces.createPath e.space).2.register (r.spaces.createPath e.space).1 e.name e.key) e.space =
          some (r.spaces.createPath e.space).1 :=
      NamespaceTree.descend?_within (NamespaceTree.within_register _ _ _ _) hfound
    have hstands := hstands (hwithin.trans (NamespaceTree.within_register _ _ _ _))
    simp only [hnone, hspace, true_and, Option.some.injEq] at hstands
    exact {
      nodup_keys := Assoc.nodup_keys_insert h.nodup_keys e.key e
      key := hkey
      housed := hhoused
      mem_nestedTypes := fun c key => by
        rw [hholds, hnone, ← h.mem_nestedTypes]
        simp [nestedTypes]
      nodup_nestedTypes := h.nodup_nestedTypes
      mem_residents := fun home name key => by
        rw [hstands, NamespaceTree.mem_residents_register, ← h.mem_residents, Resident.mk.injEq]
        refine or_congr (Eq.to_iff (congrArg (_ ∈ ·) hresidents)) ?_
        constructor
        · rintro ⟨hhome, hname, hkey⟩
          exact ⟨hkey, hname.symm, hhome.symm⟩
        · rintro ⟨hkey, hname, hhome⟩
          exact ⟨hhome.symm, hname.symm, hkey⟩
      nodup_residents := NamespaceTree.nodup_residents_register (hresidents.symm ▸ h.nodup_residents) _ _ _
      home := fun home key => by
        have hnot : ∀ name, ¬r.Stands home name e.key := by
          rintro name ⟨e', he', -⟩
          cases new.symm.trans he'
        simp only [hstands]
        change (Assoc.insert _ e.key _).get? key = some home ↔ _
        rw [Assoc.get?_insert]
        by_cases heq : key = e.key
        · subst heq
          simp [hnot]
        · rw [if_neg heq]
          simp only [heq, false_and, or_false, ← h.home]
          exact Eq.to_iff (congrArg (fun homes => Assoc.get? homes key = some home) hhomes)
      later := fun c key hc => hlater c key ((hholds c key).1 hc) }

end Indexed

end Registry

/-- A declaration that has a place makes a type, or becomes a part of one. -/
theorem Registration.place_cases {r r' : Registry} {origin : Origin} {s : DeclSite}
    (h : place r origin s = .ok r') :
    r.register (s.newEntry origin) = .ok r' ∨ r' = r.modify s.key (·.withPart s.decl) := by
  unfold place at h
  split at h
  · exact .inl h
  · split at h
    · cases h
      exact .inr rfl
    · cases h

/-- The types of trees are indexed, whether or not all declarations could be registered. -/
theorem Registration.indexed_ofTrees (trees : List SourceTree) : (ofTrees trees).registry.Indexed :=
  registry_induction .empty (fun _ path hr => hr.createSpace path) (fun _ _ _ _ _ hr h => hr.register h)
    fun _ key d hr => hr.modify key fun e => e.bare_withPart d

/-! ### Types with one name in one place -/

namespace TypeEntry.DeclaredAt

variable {e : TypeEntry} {s : DeclSite} (declared : e.DeclaredAt s)
include declared

theorem name : e.name = s.decl.name.name := congrArg QualifiedName.name declared.qualified

theorem arity : e.arity = s.decl.arity := by
  rw [TypeEntry.arity, declared.typeParams]
  exact List.length_map _

end TypeEntry.DeclaredAt

namespace DeclSite

theorem identity_of_top {s : DeclSite} (h : s.containers = []) :
    s.identity = typeIdentity (".".intercalate s.path) s.decl.name.name s.decl.arity := by
  rw [identity, h]
  rfl

theorem identity_of_nested {s : DeclSite} {outer : List TypeDecl} {d : TypeDecl}
    (h : s.containers = outer ++ [d]) :
    s.identity = typeIdentity (identity ⟨s.spaces, outer, d⟩) s.decl.name.name s.decl.arity := by
  rw [identity, h, identityIn, List.foldl_append]
  rfl

theorem container?_of_top {s : DeclSite} (h : s.containers = []) : s.container? = none := by
  rw [container?_eq, if_pos h]

theorem container?_of_nested {s : DeclSite} {outer : List TypeDecl} {d : TypeDecl}
    (h : s.containers = outer ++ [d]) :
    s.container? = some (key ⟨s.spaces, outer, d⟩) := by
  rw [container?_eq, if_neg (by simp [h]), h]
  rfl

theorem chain_of_top {s : DeclSite} (h : s.containers = []) :
    s.chain = [(s.decl.name.name, s.decl.arity)] := by
  rw [chain_eq, h]
  rfl

theorem chain_of_nested {s : DeclSite} {outer : List TypeDecl} {d : TypeDecl}
    (h : s.containers = outer ++ [d]) :
    s.chain = chain ⟨s.spaces, outer, d⟩ ++ [(s.decl.name.name, s.decl.arity)] := by
  rw [chain_eq, h]
  rfl

/-- Without numbers of type parameters a full name is a qualified name. -/
theorem names_fullName (s : DeclSite) : s.fullName.map Prod.fst = s.qualified.segments := by
  simp [fullName, chain, qualified, QualifiedName.segments, Function.comp_def]

/-- With the declarations of some types there are those of the types around them, and no two of the full
names have one digest. -/
structure Closed (sites : List DeclSite) : Prop where
  parent : ∀ s ∈ sites, ∀ outer d, s.containers = outer ++ [d] → ⟨s.spaces, outer, d⟩ ∈ sites
  distinct : ∀ s ∈ sites, ∀ t ∈ sites, s.key = t.key → s.identity = t.identity

/-- The declarations in trees. -/
theorem closed_sites {trees : List SourceTree}
    (distinct : ∀ s ∈ trees.flatMap (·.sites), ∀ t ∈ trees.flatMap (·.sites), s.key = t.key →
      s.identity = t.identity) :
    Closed (trees.flatMap (·.sites)) where
  parent s hs outer d h := by
    obtain ⟨t, ht, hs⟩ := List.mem_flatMap.1 hs
    exact List.mem_flatMap.2 ⟨t, ht, (SourceTree.mem_sites_parent hs h).1⟩
  distinct := distinct

end DeclSite

/-- A type that no type holds is declared in none. -/
theorem TypeEntry.DeclaredAt.containers_of_top {e : TypeEntry} {s : DeclSite} (declared : e.DeclaredAt s)
    (top : e.container? = none) : s.containers = [] := by
  rcases List.eq_nil_or_concat s.containers with hnil | ⟨outer, d, hnested⟩
  · exact hnil
  · rw [declared.container?, DeclSite.container?_of_nested (List.concat_eq_append ▸ hnested)] at top
    cases top

namespace Registry

variable {r : Registry} {sites : List DeclSite}

/-- A type that another one holds is declared in a declaration whose key is that of the other one. -/
theorem From.parent (hr : r.From sites) (closed : DeclSite.Closed sites) {c key : TypeKey} {e : TypeEntry}
    (he : r.get? key = some e) (hc : e.container? = some c) :
    ∃ s ∈ sites, s.key = key ∧ e.DeclaredAt s ∧ ∃ outer d, s.containers = outer ++ [d] ∧
      ⟨s.spaces, outer, d⟩ ∈ sites ∧ (⟨s.spaces, outer, d⟩ : DeclSite).key = c := by
  obtain ⟨s, hs, hkey, declared⟩ := hr.declared key e he
  rw [declared.container?] at hc
  rcases List.eq_nil_or_concat s.containers with htop | ⟨outer, d, hnested⟩
  · cases (DeclSite.container?_of_top htop).symm.trans hc
  · rw [List.concat_eq_append] at hnested
    exact ⟨s, hs, hkey, declared, outer, d, hnested, closed.parent s hs outer d hnested,
      Option.some.inj ((DeclSite.container?_of_nested hnested).symm.trans hc)⟩

/-- Types with one name and number of type parameters in one namespace, or in one type, are the same. -/
def Distinct (r : Registry) : Prop :=
  ∀ key e other e', r.get? key = some e → r.get? other = some e' → e.container? = e'.container? →
    (e.container? = none → e.space = e'.space) → e.name = e'.name → e.arity = e'.arity → key = other

theorem From.distinct (hr : r.From sites) (closed : DeclSite.Closed sites) : r.Distinct := by
  intro key e other e' he he' hcontainer hspace hname harity
  cases hc : e.container? with
  | none =>
      obtain ⟨s, -, rfl, declared⟩ := hr.declared key e he
      obtain ⟨t, -, rfl, declared'⟩ := hr.declared other e' he'
      rw [DeclSite.key, DeclSite.key, DeclSite.identity_of_top (declared.containers_of_top hc),
        DeclSite.identity_of_top (declared'.containers_of_top (hcontainer ▸ hc)), ← declared.space,
        ← declared'.space, hspace hc, ← declared.name, ← declared'.name, hname, ← declared.arity,
        ← declared'.arity, harity]
  | some c =>
      obtain ⟨s, -, rfl, declared, outer, d, hs, hparent, hkey⟩ := hr.parent closed he hc
      obtain ⟨t, -, rfl, declared', outer', d', ht, hparent', hkey'⟩ :=
        hr.parent closed he' (hcontainer ▸ hc)
      rw [DeclSite.key, DeclSite.key, DeclSite.identity_of_nested hs, DeclSite.identity_of_nested ht,
        closed.distinct _ hparent _ hparent' (hkey.trans hkey'.symm), ← declared.name,
        ← declared'.name, hname, ← declared.arity, ← declared'.arity, harity]

/-- The path of a nested type is the full name of the type that holds it. -/
theorem From.qualified_path (hr : r.From sites) (closed : DeclSite.Closed sites)
    (named : ∀ s ∈ sites, s.Named fun i => Text.IsWord i.name) {c key : TypeKey} {e holder : TypeEntry}
    (he : r.get? key = some e) (hc : e.container? = some c) (hholder : r.get? c = some holder) :
    e.qualified.path = holder.qualified.segments := by
  obtain ⟨s, -, -, declared, outer, d, hs, hparent, hkey⟩ := hr.parent closed he hc
  obtain ⟨t, ht, hkey', declared'⟩ := hr.declared c holder hholder
  have hfull := congrArg (List.map Prod.fst) (DeclSite.identity_inj (named _ hparent) (named t ht)
    (closed.distinct _ hparent t ht (hkey.trans hkey'.symm)))
  rw [DeclSite.names_fullName, DeclSite.names_fullName] at hfull
  rw [declared.qualified, declared'.qualified, ← hfull]
  simp [DeclSite.qualified, QualifiedName.segments, hs, DeclSite.path]

/-! ### Types that are found -/

theorem isNamed_iff {name : String} {arity : Nat} {key : TypeKey} :
    r.isNamed name arity key = true ↔ ∃ e, r.get? key = some e ∧ e.name = name ∧ e.arity = arity := by
  rw [isNamed, Option.any_eq_true]
  simp

/-- Of the elements of a list with a property, the only one is found. -/
theorem find?_eq_some_iff_of_unique {α : Type} {p : α → Bool} {list : List α} {a : α}
    (unique : ∀ x ∈ list, ∀ y ∈ list, p x = true → p y = true → x = y) :
    list.find? p = some a ↔ a ∈ list ∧ p a = true := by
  constructor
  · exact fun h => ⟨List.mem_of_find?_eq_some h, List.find?_some h⟩
  · rintro ⟨hmem, hp⟩
    obtain ⟨b, hb⟩ := Option.isSome_iff_exists.1 (List.find?_isSome.2 ⟨a, hmem, hp⟩)
    rw [hb, unique b (List.mem_of_find?_eq_some hb) a hmem (List.find?_some hb) hp]

namespace Indexed

variable (h : r.Indexed)
include h

/-- The type that is found in another one is the only one there with the name and
number of type parameters. -/
theorem findNested?_eq_some_iff (distinct : r.Distinct) {c key : TypeKey} {name : String} {arity : Nat} :
    r.findNested? c name arity = some key ↔
      ∃ e, r.get? key = some e ∧ e.container? = some c ∧ e.name = name ∧ e.arity = arity := by
  rw [findNested?, find?_eq_some_iff_of_unique, h.mem_nestedTypes, isNamed_iff]
  · constructor
    · rintro ⟨⟨e, he, hc⟩, e', he', hnamed⟩
      obtain rfl := Option.some.inj (he.symm.trans he')
      exact ⟨e, he, hc, hnamed⟩
    · rintro ⟨e, he, hc, hnamed⟩
      exact ⟨⟨e, he, hc⟩, e, he, hnamed⟩
  · intro x hx y hy hxnamed hynamed
    obtain ⟨e, he, hename, hearity⟩ := isNamed_iff.1 hxnamed
    obtain ⟨e', he', hename', hearity'⟩ := isNamed_iff.1 hynamed
    obtain ⟨_, hex, hc⟩ := (h.mem_nestedTypes c x).1 hx
    obtain ⟨_, hey, hc'⟩ := (h.mem_nestedTypes c y).1 hy
    obtain rfl := Option.some.inj (he.symm.trans hex)
    obtain rfl := Option.some.inj (he'.symm.trans hey)
    refine distinct x e y e' he he' (hc.trans hc'.symm) (fun hnone => ?_) (hename.trans hename'.symm)
      (hearity.trans hearity'.symm)
    cases hc.symm.trans hnone

/-- The type that is found in a namespace is the only one there with the name and
number of type parameters. -/
theorem findIn?_eq_some_iff (distinct : r.Distinct) {home : NamespaceId} {key : TypeKey} {name : String}
    {arity : Nat} :
    r.findIn? home name arity = some key ↔
      ∃ e, r.get? key = some e ∧ e.container? = none ∧ r.spaces.find? e.space = some home ∧ e.name = name ∧
        e.arity = arity := by
  rw [findIn?, find?_eq_some_iff_of_unique, NamespaceTree.mem_typesNamed, h.mem_residents, isNamed_iff]
  · constructor
    · rintro ⟨⟨e, he, hnone, -, hfound⟩, e', he', hnamed⟩
      obtain rfl := Option.some.inj (he.symm.trans he')
      exact ⟨e, he, hnone, hfound, hnamed⟩
    · rintro ⟨e, he, hnone, hfound, hnamed⟩
      exact ⟨⟨e, he, hnone, hnamed.1, hfound⟩, e, he, hnamed⟩
  · intro x hx y hy hxnamed hynamed
    obtain ⟨e, he, hename, hearity⟩ := isNamed_iff.1 hxnamed
    obtain ⟨e', he', hename', hearity'⟩ := isNamed_iff.1 hynamed
    obtain ⟨_, hex, hnone, -, hfound⟩ := (h.mem_residents home name x).1 (NamespaceTree.mem_typesNamed.1 hx)
    obtain ⟨_, hey, hnone', -, hfound'⟩ :=
      (h.mem_residents home name y).1 (NamespaceTree.mem_typesNamed.1 hy)
    obtain rfl := Option.some.inj (he.symm.trans hex)
    obtain rfl := Option.some.inj (he'.symm.trans hey)
    exact distinct x e y e' he he' (hnone.trans hnone'.symm)
      (fun _ => NamespaceTree.find?_inj hfound hfound')
      (hename.trans hename'.symm) (hearity.trans hearity'.symm)

/-! ### Types around a type -/

/-- No chain of types around a type is endless. -/
theorem wellFounded_holds : WellFounded r.Holds :=
  Subrelation.wf (fun hc => h.later _ _ hc) (measure fun key => r.types.keys.idxOf key).wf

omit h in
theorem idxOf_lt {key : TypeKey} {e : TypeEntry} (he : r.get? key = some e) :
    r.types.keys.idxOf key < r.types.entries.length := by
  have hlt := List.idxOf_lt_length_iff.2 (Assoc.mem_keys_of_get? he)
  rwa [Assoc.keys, List.length_map] at hlt

/-- From some limit on, more types are not needed. -/
theorem chainUpTo_eq {limit other : Nat} {key : TypeKey} (hlimit : r.types.keys.idxOf key < limit)
    (hother : r.types.keys.idxOf key < other) : r.chainUpTo limit key = r.chainUpTo other key := by
  induction limit generalizing other key with
  | zero => cases hlimit
  | succ limit ih =>
      cases other with
      | zero => cases hother
      | succ other =>
          rw [chainUpTo, chainUpTo]
          split
          · rfl
          · rename_i e he
            cases hc : e.container? with
            | none => rfl
            | some c =>
                have hlater := h.later c key ⟨e, he, hc⟩
                dsimp only
                rw [ih (Nat.lt_of_lt_of_le hlater (Nat.le_of_lt_succ hlimit))
                  (Nat.lt_of_lt_of_le hlater (Nat.le_of_lt_succ hother))]

/-- The types around a type are the one that holds it and the types around that one. -/
theorem chain_eq {key : TypeKey} {e : TypeEntry} (he : r.get? key = some e) :
    r.chain key = e :: (e.container?.map r.chain).getD [] := by
  have hlimit := idxOf_lt he
  obtain ⟨limit, hlength⟩ := Nat.exists_eq_succ_of_ne_zero (Nat.ne_zero_of_lt hlimit)
  rw [chain, hlength, chainUpTo, he]
  dsimp only
  cases hc : e.container? with
  | none => rfl
  | some c =>
      have hlater := h.later c key ⟨e, he, hc⟩
      rw [hlength] at hlimit
      exact congrArg (e :: ·) (h.chainUpTo_eq (Nat.lt_of_lt_of_le hlater (Nat.le_of_lt_succ hlimit))
        (hlength ▸ hlater.trans hlimit))

/-- The full name of a type is its own name behind that of the type that holds it, or its namespace. -/
theorem displayName?_eq (hr : r.From sites) (key : TypeKey) :
    r.displayName? key = (r.get? key).map fun e =>
      appendSegment ((e.container?.bind r.displayName?).getD (".".intercalate e.space)) e.header := by
  cases he : r.get? key with
  | none =>
      have hnil : r.chain key = [] := by
        rw [chain]
        cases r.types.entries.length with
        | zero => rfl
        | succ limit => rw [chainUpTo, he]
      rw [displayName?, hnil]
      rfl
  | some e =>
      rw [displayName?, h.chain_eq he, Option.map_some]
      cases hc : e.container? with
      | none => rfl
      | some c =>
          obtain ⟨holder, hholder⟩ := Option.isSome_iff_exists.1 (hr.container key e c he hc)
          obtain ⟨outermost, inner, hinner⟩ := List.exists_cons_of_ne_nil
            (show (r.chain c).reverse ≠ [] by rw [h.chain_eq hholder]; simp)
          have hdisplay : r.displayName? c = some ((outermost :: inner).foldl
              (fun text e => appendSegment text e.header) (".".intercalate outermost.space)) := by
            rw [displayName?, hinner]
          rw [Option.map_some, Option.getD_some, List.reverse_cons, hinner, Option.bind_some, hdisplay,
            List.cons_append]
          dsimp only
          rw [← List.cons_append, List.foldl_append]
          rfl

end Indexed

end Registry

end Graft
