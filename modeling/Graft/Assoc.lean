/-
Module: Graft.Assoc
Purpose: Finite maps that keep their keys in the order in which they came.
Main exports: Assoc, Assoc.get?, Assoc.insert, Assoc.get?_insert, Assoc.entries_insert_of_not_mem,
  Assoc.nodup_keys_insert
-/

namespace Graft

/-- A finite map as a list of entries. -/
structure Assoc (κ : Type) (α : Type) where
  entries : List (κ × α)
deriving Repr, Inhabited, DecidableEq

namespace Assoc

variable {κ : Type} {α : Type} [DecidableEq κ]

/-- The map without entries. -/
def empty : Assoc κ α := ⟨[]⟩

/-- The value at a key. -/
def get? (m : Assoc κ α) (key : κ) : Option α :=
  (m.entries.find? (·.1 = key)).map Prod.snd

/-- The map has a value at the key. -/
def contains (m : Assoc κ α) (key : κ) : Bool := (m.get? key).isSome

/-- The keys in the order in which they came. -/
def keys (m : Assoc κ α) : List κ := m.entries.map Prod.fst

/-- Put a value at a key: in the place of the key's former value, else at the end. -/
def put (key : κ) (value : α) : List (κ × α) → List (κ × α)
  | [] => [(key, value)]
  | entry :: rest =>
      if entry.1 = key then (key, value) :: rest else entry :: put key value rest

/-- The map with a value at a key. -/
def insert (m : Assoc κ α) (key : κ) (value : α) : Assoc κ α := ⟨put key value m.entries⟩

/-- The map without a key. -/
def erase (m : Assoc κ α) (key : κ) : Assoc κ α := ⟨m.entries.filter (·.1 ≠ key)⟩

/-- The map with every value changed. -/
def mapValues {β : Type} (m : Assoc κ α) (f : α → β) : Assoc κ β :=
  ⟨m.entries.map fun entry => (entry.1, f entry.2)⟩

@[simp] theorem get?_empty (key : κ) : (empty : Assoc κ α).get? key = none := rfl

/-- A key reads what was last put at it. -/
theorem get?_insert (m : Assoc κ α) (key other : κ) (value : α) :
    (m.insert key value).get? other = if other = key then some value else m.get? other := by
  obtain ⟨entries⟩ := m
  simp only [insert, get?]
  induction entries with
  | nil => by_cases h : key = other <;> simp [put, h, eq_comm]
  | cons entry rest ih =>
      by_cases hentry : entry.1 = key
      · by_cases h : key = other <;> simp [put, hentry, h, eq_comm]
      · by_cases h : entry.1 = other
        · have : other ≠ key := fun hk => hentry (h.trans hk)
          simp [put, h, this]
        · simpa [put, hentry, h] using ih

/-- A new key comes behind the others. -/
theorem entries_insert_of_not_mem {m : Assoc κ α} {key : κ} (new : key ∉ m.keys) (value : α) :
    (m.insert key value).entries = m.entries ++ [(key, value)] := by
  obtain ⟨entries⟩ := m
  simp only [keys] at new
  simp only [insert]
  induction entries with
  | nil => rfl
  | cons entry rest ih =>
      rw [List.map_cons, List.mem_cons, not_or] at new
      rw [put, if_neg (Ne.symm new.1), ih new.2, List.cons_append]

/-- A key that is there keeps its place. -/
theorem keys_insert_of_mem {m : Assoc κ α} {key : κ} (there : key ∈ m.keys) (value : α) :
    (m.insert key value).keys = m.keys := by
  obtain ⟨entries⟩ := m
  simp only [keys, insert] at there ⊢
  induction entries with
  | nil => cases there
  | cons entry rest ih =>
      rw [put]
      split
      · rename_i hentry
        rw [List.map_cons, List.map_cons, hentry]
      · rename_i hentry
        rw [List.map_cons, List.mem_cons] at there
        rw [List.map_cons, List.map_cons, ih (there.resolve_left (Ne.symm hentry))]

/-- Where no key stands twice, none does after a value is put at one. -/
theorem nodup_keys_insert {m : Assoc κ α} (nodup : m.keys.Nodup) (key : κ) (value : α) :
    (m.insert key value).keys.Nodup := by
  by_cases there : key ∈ m.keys
  · rwa [keys_insert_of_mem there]
  · rw [keys, entries_insert_of_not_mem there, List.map_append]
    refine List.nodup_append.2 ⟨nodup, List.nodup_cons.2 ⟨List.not_mem_nil, .nil⟩, ?_⟩
    rintro a ha b hb rfl
    obtain rfl : a = key := List.mem_singleton.1 hb
    exact there ha

/-- A key that was taken out has no value; the others keep theirs. -/
theorem get?_erase (m : Assoc κ α) (key other : κ) :
    (m.erase key).get? other = if other = key then none else m.get? other := by
  obtain ⟨entries⟩ := m
  simp only [erase, get?]
  induction entries with
  | nil => simp
  | cons entry rest ih =>
      by_cases hentry : entry.1 = key
      · rw [List.filter_cons_of_neg (by simpa using hentry), ih]
        by_cases h : other = key
        · simp [h]
        · have : entry.1 ≠ other := fun ho => h (ho.symm.trans hentry)
          simp [h, this]
      · rw [List.filter_cons_of_pos (by simpa using hentry)]
        by_cases h : entry.1 = other
        · have : other ≠ key := fun hk => hentry (h.trans hk)
          simp [h, this]
        · simpa [h] using ih

/-- Every value is changed. -/
theorem get?_mapValues {β : Type} (m : Assoc κ α) (f : α → β) (key : κ) :
    (m.mapValues f).get? key = (m.get? key).map f := by
  obtain ⟨entries⟩ := m
  simp only [mapValues, get?, List.find?_map, Option.map_map]
  rfl

/-- A key with a value is one of the keys. -/
theorem mem_keys_of_get? {m : Assoc κ α} {key : κ} {value : α} (h : m.get? key = some value) :
    key ∈ m.keys := by
  obtain ⟨entry, hfind, -⟩ := Option.map_eq_some_iff.1 h
  have hkey : entry.1 = key := by simpa using List.find?_some hfind
  exact List.mem_map.2 ⟨entry, List.mem_of_find?_eq_some hfind, hkey⟩

/-- One of the keys has a value. -/
theorem get?_isSome_of_mem_keys {m : Assoc κ α} {key : κ} (h : key ∈ m.keys) :
    (m.get? key).isSome := by
  obtain ⟨entry, hmem, hkey⟩ := List.mem_map.1 h
  simp only [get?, Option.isSome_map, List.find?_isSome]
  exact ⟨entry, hmem, by simpa using hkey⟩

/-- Where no key has two values, a key has the value it stands with. -/
theorem get?_eq_some_iff {m : Assoc κ α} (nodup : m.keys.Nodup) {key : κ} {value : α} :
    m.get? key = some value ↔ (key, value) ∈ m.entries := by
  obtain ⟨entries⟩ := m
  simp only [keys] at nodup
  simp only [get?]
  induction entries with
  | nil => simp
  | cons entry rest ih =>
      obtain ⟨other, first⟩ := entry
      rw [List.map_cons, List.nodup_cons] at nodup
      rw [List.mem_cons, Prod.mk.injEq]
      by_cases hkey : other = key
      · subst hkey
        have hrest : (other, value) ∉ rest := fun hmem => nodup.1 (List.mem_map.2 ⟨_, hmem, rfl⟩)
        simp [hrest, eq_comm]
      · have hfind : ((other, first) :: rest).find? (·.1 = key) = rest.find? (·.1 = key) :=
          List.find?_cons_of_neg (by simpa using hkey)
        rw [hfind, ih nodup.2]
        simp [Ne.symm hkey]

end Assoc

end Graft
