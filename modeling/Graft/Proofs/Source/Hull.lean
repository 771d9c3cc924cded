/-
Module: Graft.Proofs.Source.Hull
Purpose: Spans that are merged one by one cover the hull of all of them, in whatever order they come.
Main exports: Word.add?, Word.sub?, Span.SamePlaces, Span.IsHull, Span.mergeWord?, Span.mergeAllWord?,
  Span.mergeAll?_hull

The hull starts where the first span does and ends with the last one.  Its line and column are those of a
span that starts there, so that they do not depend on the order only if spans that start together agree on
them.  Offsets and lengths are kept in 32 bits; no end on the way is further than the furthest one.
-/
import Graft.Source.Span

namespace Graft

/-! ### Numbers of 32 bits -/

namespace Word

/-- The sum of two numbers of 32 bits; nothing if it does not fit. -/
def add? (a b : Nat) : Option Nat := if a + b < UInt32.size then some (a + b) else none

/-- The difference of two numbers of 32 bits; nothing if it is negative. -/
def sub? (a b : Nat) : Option Nat := if b ≤ a then some (a - b) else none

variable {a b : Nat}

theorem add?_eq_some (h : a + b < UInt32.size) : add? a b = some (a + b) := if_pos h

theorem sub?_eq_some (h : b ≤ a) : sub? a b = some (a - b) := if_pos h

end Word

namespace Span

variable {s t hull : Span} {spans more : List Span}

/-! ### Two spans -/

theorem merge_of_le (h : s.offset ≤ t.offset) :
    s.merge t = { s with length := max s.stop t.stop - s.offset } := by
  rw [merge, if_pos h]

theorem merge_of_lt (h : t.offset < s.offset) :
    s.merge t = { t with length := max s.stop t.stop - t.offset } := by
  rw [merge, if_neg (Nat.not_le.2 h)]

theorem offset_merge (s t : Span) : (s.merge t).offset = min s.offset t.offset := by
  rcases Nat.lt_or_ge t.offset s.offset with h | h
  · rw [merge_of_lt h, Nat.min_eq_right (Nat.le_of_lt h)]
  · rw [merge_of_le h, Nat.min_eq_left h]

theorem offset_le_stop (s : Span) : s.offset ≤ s.stop := Nat.le_add_right _ _

theorem stop_merge (s t : Span) : (s.merge t).stop = max s.stop t.stop := by
  have hs := s.offset_le_stop
  have ht := t.offset_le_stop
  rcases Nat.lt_or_ge t.offset s.offset with h | h
  · rw [merge_of_lt h, stop, Nat.add_sub_cancel' (Nat.le_trans ht (Nat.le_max_right _ _))]
  · rw [merge_of_le h, stop, Nat.add_sub_cancel' (Nat.le_trans hs (Nat.le_max_left _ _))]

/-! ### The hull -/

/-- Spans that start at the same byte have the same line and column. -/
def SamePlaces (spans : List Span) : Prop :=
  ∀ s ∈ spans, ∀ t ∈ spans, s.offset = t.offset → s.line = t.line ∧ s.column = t.column

/-- The smallest span that covers some spans: it starts with one of them, in its line and column, and none
starts before that; it ends with one of them, and none ends behind that. -/
structure IsHull (spans : List Span) (hull : Span) : Prop where
  starts : ∃ s ∈ spans, hull.offset = s.offset ∧ hull.line = s.line ∧ hull.column = s.column
  first : ∀ s ∈ spans, hull.offset ≤ s.offset
  ends : ∃ s ∈ spans, hull.stop = s.stop
  last : ∀ s ∈ spans, s.stop ≤ hull.stop

namespace IsHull

theorem single (s : Span) : IsHull [s] s where
  starts := ⟨s, List.mem_singleton_self s, rfl, rfl, rfl⟩
  first _ hu := Nat.le_of_eq (congrArg offset (List.mem_singleton.1 hu).symm)
  ends := ⟨s, List.mem_singleton_self s, rfl⟩
  last _ hu := Nat.le_of_eq (congrArg stop (List.mem_singleton.1 hu))

/-- A span that is merged with a hull gives the hull of one span more. -/
theorem merge (h : IsHull spans hull) (t : Span) : IsHull (spans ++ [t]) (hull.merge t) where
  starts := by
    rcases Nat.lt_or_ge t.offset hull.offset with hlt | hle
    · rw [merge_of_lt hlt]
      exact ⟨t, List.mem_append_right _ (List.mem_singleton_self t), rfl, rfl, rfl⟩
    · rw [merge_of_le hle]
      obtain ⟨s, hs, hplace⟩ := h.starts
      exact ⟨s, List.mem_append_left _ hs, hplace⟩
  first u hu := by
    rw [offset_merge]
    rcases List.mem_append.1 hu with hu | hu
    · exact Nat.le_trans (Nat.min_le_left _ _) (h.first u hu)
    · rw [List.mem_singleton.1 hu]
      exact Nat.min_le_right _ _
  ends := by
    rw [stop_merge]
    rcases Nat.le_total hull.stop t.stop with hle | hle
    · rw [Nat.max_eq_right hle]
      exact ⟨t, List.mem_append_right _ (List.mem_singleton_self t), rfl⟩
    · rw [Nat.max_eq_left hle]
      obtain ⟨s, hs, hstop⟩ := h.ends
      exact ⟨s, List.mem_append_left _ hs, hstop⟩
  last u hu := by
    rw [stop_merge]
    rcases List.mem_append.1 hu with hu | hu
    · exact Nat.le_trans (h.last u hu) (Nat.le_max_left _ _)
    · rw [List.mem_singleton.1 hu]
      exact Nat.le_max_right _ _

theorem foldl (h : IsHull spans hull) (more : List Span) :
    IsHull (spans ++ more) (more.foldl Span.merge hull) := by
  induction more generalizing spans hull with
  | nil => rwa [List.append_nil]
  | cons t rest ih =>
      have hrest := ih (h.merge t)
      rwa [List.append_assoc, List.singleton_append] at hrest

/-- The hull of some spans starts no later, and ends no earlier, than the hull of a part of them. -/
theorem offset_le (h : IsHull spans s) (h' : IsHull more t) (sub : ∀ u ∈ more, u ∈ spans) :
    s.offset ≤ t.offset := by
  obtain ⟨u, hu, hoffset, -⟩ := h'.starts
  rw [hoffset]
  exact h.first u (sub u hu)

theorem stop_le (h : IsHull spans s) (h' : IsHull more t) (sub : ∀ u ∈ more, u ∈ spans) :
    t.stop ≤ s.stop := by
  obtain ⟨u, hu, hstop⟩ := h'.ends
  rw [hstop]
  exact h.last u (sub u hu)

/-- Which spans there are decides their hull, not in which order or how often. -/
theorem unique (h : IsHull spans s) (h' : IsHull more t) (same : ∀ u, u ∈ more ↔ u ∈ spans)
    (places : SamePlaces spans) : s = t := by
  have hsub : ∀ u ∈ more, u ∈ spans := fun u => (same u).1
  have hsub' : ∀ u ∈ spans, u ∈ more := fun u => (same u).2
  have hoffset : s.offset = t.offset := Nat.le_antisymm (h.offset_le h' hsub) (h'.offset_le h hsub')
  have hstop : s.stop = t.stop := Nat.le_antisymm (h'.stop_le h hsub') (h.stop_le h' hsub)
  have hlength : s.length = t.length := by
    unfold stop at hstop
    omega
  obtain ⟨u, hu, huOffset, huLine, huColumn⟩ := h.starts
  obtain ⟨v, hv, hvOffset, hvLine, hvColumn⟩ := h'.starts
  obtain ⟨hline, hcolumn⟩ := places u hu v (hsub v hv) (by rw [← huOffset, hoffset, hvOffset])
  obtain ⟨offset, line, column, length⟩ := s
  obtain ⟨offset', line', column', length'⟩ := t
  rw [mk.injEq]
  exact ⟨hoffset, huLine.trans (hline.trans hvLine.symm), huColumn.trans (hcolumn.trans hvColumn.symm),
    hlength⟩

end IsHull

theorem isHull_mergeAll? (h : spans ≠ []) : ∃ hull, mergeAll? spans = some hull ∧ IsHull spans hull := by
  cases spans with
  | nil => exact absurd rfl h
  | cons s rest => exact ⟨rest.foldl merge s, rfl, (IsHull.single s).foldl rest⟩

/-! ### Merging in 32 bits -/

/-- Merging in numbers of 32 bits, where the ends are sums and the length is a difference; nothing if one of
them does not fit. -/
def mergeWord? (s t : Span) : Option Span := do
  let first := if s.offset ≤ t.offset then s else t
  let stop := max (← Word.add? s.offset s.length) (← Word.add? t.offset t.length)
  let length ← Word.sub? stop first.offset
  return { first with length }

/-- Merging a list of spans from the left in numbers of 32 bits. -/
def mergeAllWord? : List Span → Option Span
  | [] => none
  | s :: rest => rest.foldlM mergeWord? s

/-- Two spans that end within 32 bits are merged within them. -/
theorem mergeWord?_eq_some (hs : s.stop < UInt32.size) (ht : t.stop < UInt32.size) :
    s.mergeWord? t = some (s.merge t) := by
  have hstart : (if s.offset ≤ t.offset then s else t).offset ≤ max s.stop t.stop := by
    split
    · exact Nat.le_trans s.offset_le_stop (Nat.le_max_left _ _)
    · exact Nat.le_trans t.offset_le_stop (Nat.le_max_right _ _)
  rw [mergeWord?, Word.add?_eq_some hs, Word.add?_eq_some ht]
  dsimp only [Option.bind_eq_bind, Option.bind_some]
  change (Word.sub? (max s.stop t.stop) _ >>= _) = _
  rw [Word.sub?_eq_some hstart]
  rfl

theorem stop_merge_lt {bound : Nat} (hs : s.stop < bound) (ht : t.stop < bound) :
    (s.merge t).stop < bound := by
  rw [stop_merge]
  exact Nat.max_lt.2 ⟨hs, ht⟩

theorem foldlM_mergeWord? (hs : s.stop < UInt32.size) (hmore : ∀ t ∈ more, t.stop < UInt32.size) :
    more.foldlM mergeWord? s = some (more.foldl merge s) := by
  induction more generalizing s with
  | nil => rfl
  | cons t rest ih =>
      have ht := hmore t List.mem_cons_self
      rw [List.foldlM_cons, mergeWord?_eq_some hs ht]
      exact ih (stop_merge_lt hs ht) fun u hu => hmore u (List.mem_cons_of_mem t hu)

/-- No number is too large on the way if no span ends too far. -/
theorem mergeAllWord?_eq (h : ∀ s ∈ spans, s.stop < UInt32.size) :
    mergeAllWord? spans = mergeAll? spans := by
  cases spans with
  | nil => rfl
  | cons s rest =>
      exact foldlM_mergeWord? (h s List.mem_cons_self) fun t ht => h t (List.mem_cons_of_mem s ht)

/-- Spans that agree on their places and end within 32 bits have one hull, which merging them from the left
gives in every order and with every repetition, and always within 32 bits. -/
theorem mergeAll?_hull (spans : List Span) (nonempty : spans ≠ []) (places : SamePlaces spans)
    (fits : ∀ s ∈ spans, s.stop < UInt32.size) :
    ∃ hull, IsHull spans hull ∧ ∀ more : List Span, (∀ s, s ∈ more ↔ s ∈ spans) →
      mergeAll? more = some hull ∧ mergeAllWord? more = some hull := by
  obtain ⟨hull, -, hhull⟩ := isHull_mergeAll? nonempty
  refine ⟨hull, hhull, fun more same => ?_⟩
  have hmore : more ≠ [] := by
    rintro rfl
    obtain ⟨s, hs, -⟩ := hhull.starts
    exact List.not_mem_nil ((same s).2 hs)
  obtain ⟨other, hmerge, hother⟩ := isHull_mergeAll? hmore
  obtain rfl := hhull.unique hother same places
  exact ⟨hmerge, (mergeAllWord?_eq fun s hs => fits s ((same s).1 hs)).trans hmerge⟩

/-- Three spans, two of which start together and one of which ends as far out as 32 bits reach.  They have
the same hull in another order and with repetitions. -/
theorem mergeAll?_hull_repeated :
    mergeAllWord? [⟨20, 2, 3, 4294967275⟩, ⟨4, 1, 5, 0⟩, ⟨4, 1, 5, 3⟩, ⟨4, 1, 5, 0⟩,
      ⟨20, 2, 3, 4294967275⟩] = mergeAll? [⟨4, 1, 5, 3⟩, ⟨20, 2, 3, 4294967275⟩, ⟨4, 1, 5, 0⟩] ∧
    mergeAll? [⟨4, 1, 5, 3⟩, ⟨20, 2, 3, 4294967275⟩, ⟨4, 1, 5, 0⟩] = some ⟨4, 1, 5, 4294967291⟩ := by
  refine ⟨?_, by decide⟩
  have places : SamePlaces [⟨4, 1, 5, 3⟩, ⟨20, 2, 3, 4294967275⟩, ⟨4, 1, 5, 0⟩] := by
    unfold SamePlaces
    decide
  obtain ⟨hull, -, hmerge⟩ := mergeAll?_hull _ (by decide) places (by decide)
  have hmore := hmerge [⟨20, 2, 3, 4294967275⟩, ⟨4, 1, 5, 0⟩, ⟨4, 1, 5, 3⟩, ⟨4, 1, 5, 0⟩,
    ⟨20, 2, 3, 4294967275⟩] fun s => by simp only [List.mem_cons]; grind
  exact hmore.2.trans (hmerge _ fun _ => Iff.rfl).1.symm

end Span

end Graft
