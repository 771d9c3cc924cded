/-
Module: Graft.Proofs.Parser.Searches
Purpose: Stretches of the tokens of a source, and how far groups and searches reach in them.
Main exports: Token.between, Token.GroupAt, Token.UpTo, Token.Clear

Tokens are named by their numbers.  A search for terminators passes what is outside all brackets and no
terminator, and each group as a whole; so where it ends is found from stretches that follow one another.
-/
import Graft.Proofs.Parser.Brackets
import Graft.Proofs.Parser.TypeTokens
import Graft.Proofs.Token.Stretch

namespace Graft

variable {all : List Token} {i j k : Nat} {terminators more : List TokenKind}

namespace Skip

variable {tokens u v : List Token} {depth count : Nat}

/-- A search for fewer terminators passes what a search for more of them does. -/
theorem untilLength_subset (hsub : terminators ⊆ more) (h : untilLength more depth tokens = .closed count) :
    untilLength terminators depth tokens = .after count (untilLength terminators 0 (tokens.drop count)) := by
  induction tokens generalizing depth count with
  | nil =>
      rw [untilLength, Distance.closed, Distance.mk.injEq] at h
      obtain ⟨rfl, hdepth⟩ := h
      obtain rfl : depth = 0 := by simpa using hdepth
      rfl
  | cons t rest ih =>
      rw [untilLength] at h
      split at h
      · rename_i hstop
        obtain rfl : 0 = count := congrArg Distance.count h
        rw [hstop.1, List.drop_zero]
        simp [Distance.after]
      · rename_i hgo
        obtain ⟨hcount, hclosed⟩ := Distance.mk.inj h
        have hrest := @ih (depthAfter depth t) _ (by rw [Distance.closed, ← hclosed])
        subst hcount
        rw [untilLength, if_neg fun hstop => hgo ⟨hstop.1, hstop.2.imp_left fun hmem => hsub hmem⟩, hrest,
          after_after, Nat.add_comm 1, List.drop_succ_cons]

/-- Nested tokens none of which is a terminator are passed. -/
theorem untilLength_between (h : Nested u) (hu : ∀ t ∈ u, t.kind ∉ terminators) (v : List Token) :
    untilLength terminators 0 (u ++ v) = .after u.length (untilLength terminators 0 v) := by
  induction h with
  | nil => simp [Distance.after]
  | @plain t rest notOpener notCloser _ ih =>
      obtain ⟨ht, hrest⟩ := List.forall_mem_cons.1 hu
      rw [List.cons_append, untilLength, if_neg (by simp [ht, notCloser]),
        depthAfter_plain notOpener notCloser, ih hrest, after_after, List.length_cons, Nat.add_comm]
  | @group opening closing inner rest closes inside _ _ ih =>
      have happend : opening :: (inner ++ closing :: rest) ++ v =
          opening :: (inner ++ closing :: (rest ++ v)) := by simp
      rw [happend, untilLength_group closes inside (hu _ List.mem_cons_self),
        ih fun t ht => hu t (by simp [ht]), after_after]
      congr 1
      simp only [List.length_cons, List.length_append]
      omega

end Skip

/-! ### Stretches -/

namespace Token

/-- The tokens from one number up to another. -/
def between (all : List Token) (i j : Nat) : List Token := (all.drop i).take (j - i)

theorem between_self : between all i i = [] := by rw [between, Nat.sub_self, List.take_zero]

theorem between_append (hik : i ≤ k) (hkj : k ≤ j) :
    between all i k ++ between all k j = between all i j := by
  have hdrop : all.drop k = (all.drop i).drop (k - i) := by
    rw [List.drop_drop]
    congr 1
    omega
  rw [between, between, between, hdrop, ← List.take_add]
  congr 1
  omega

theorem between_single {t : Token} (h : all[i]? = some t) : between all i (i + 1) = [t] := by
  obtain ⟨hi, ht⟩ := List.getElem?_eq_some_iff.1 h
  rw [between, Nat.add_sub_cancel_left, List.drop_eq_getElem_cons hi, List.take_succ_cons,
    List.take_zero, ht]

theorem between_append_drop (h : i ≤ j) : between all i j ++ all.drop j = all.drop i := by
  have hdrop : all.drop j = (all.drop i).drop (j - i) := by
    rw [List.drop_drop]
    congr 1
    omega
  rw [between, hdrop, List.take_append_drop]

theorem length_between (h : j ≤ all.length) : (between all i j).length = j - i := by
  rw [between, List.length_take, List.length_drop]
  omega

/-- The tokens between two numbers are those that a parser passes on the way. -/
theorem between_eq {passed : List Token} (h : all.drop i = passed ++ all.drop j) (hle : j ≤ all.length) :
    between all i j = passed := by
  have hlength := congrArg List.length h
  rw [List.length_drop, List.length_append, List.length_drop] at hlength
  rw [between, h, List.take_left' (by omega)]

/-! ### Groups -/

/-- The group that a bracket at number `i` opens ends before number `j`. -/
structure GroupAt (all : List Token) (i j : Nat) (opener : TokenKind) : Prop where
  opens : KindAt all i opener
  closes : Skip.groupLength? 0 (all.drop i) = some (j - i)

theorem GroupAt.lt {opener : TokenKind} (h : GroupAt all i j opener) : i < j := by
  have hpos := (Skip.groupLength?_bounds h.closes).1
  omega

/-- What balances between two brackets makes a group with them. -/
theorem GroupAt.of_balanced {opener closer : TokenKind} (hopen : KindAt all i opener)
    (hclose : KindAt all j closer) (opening : opener.isOpener = true) (closing : closer.isCloser = true)
    (hij : i < j) (inside : Skip.Balanced (between all (i + 1) j)) : GroupAt all i (j + 1) opener := by
  refine ⟨hopen, ?_⟩
  obtain ⟨t, ht, rfl⟩ := hopen
  obtain ⟨u, hu, rfl⟩ := hclose
  have hlength := length_between (i := i + 1) (Nat.le_of_lt (List.getElem?_eq_some_iff.1 hu).1)
  have hbehind : all.drop j = u :: all.drop (j + 1) := by
    rw [List.drop_eq_getElem_cons (List.getElem?_eq_some_iff.1 hu).1, (List.getElem?_eq_some_iff.1 hu).2]
  rw [List.drop_eq_getElem_cons (List.getElem?_eq_some_iff.1 ht).1, (List.getElem?_eq_some_iff.1 ht).2,
    ← between_append_drop hij, hbehind, Skip.groupLength?_group_of_balanced opening closing inside, hlength]
  congr 1
  omega

/-! ### Searches -/

/-- A search for the terminators that starts at number `i` ends before number `j`. -/
structure UpTo (all : List Token) (terminators : List TokenKind) (i j : Nat) : Prop where
  le : i ≤ j
  search : Skip.untilLength terminators 0 (all.drop i) = .closed (j - i)

/-- A search for the terminators that starts at number `i` comes to number `j`: the
way there is clear of them. -/
structure Clear (all : List Token) (terminators : List TokenKind) (i j : Nat) : Prop where
  le : i ≤ j
  search : Skip.untilLength terminators 0 (all.drop i) =
    .after (j - i) (Skip.untilLength terminators 0 (all.drop j))

namespace Clear

theorem refl (i : Nat) : Clear all terminators i i := ⟨Nat.le_refl i, by simp [Skip.Distance.after]⟩

theorem trans (h : Clear all terminators i k) (h' : Clear all terminators k j) :
    Clear all terminators i j := by
  refine ⟨Nat.le_trans h.le h'.le, ?_⟩
  rw [h.search, h'.search, Skip.after_after]
  congr 1
  have hle := h.le
  have hle' := h'.le
  omega

/-- A token that is neither a terminator nor a bracket is passed. -/
theorem token {kind : TokenKind} (hat : KindAt all i kind) (hend : kind ∉ terminators)
    (notOpener : kind.isOpener = false) (notCloser : kind.isCloser = false) :
    Clear all terminators i (i + 1) := by
  obtain ⟨t, ht, rfl⟩ := hat
  refine ⟨Nat.le_succ i, ?_⟩
  rw [List.drop_eq_getElem_cons (List.getElem?_eq_some_iff.1 ht).1, (List.getElem?_eq_some_iff.1 ht).2,
    Skip.untilLength, if_neg (by simp [hend, notCloser]), Skip.depthAfter_plain notOpener notCloser,
    Nat.add_sub_cancel_left]

/-- A group that no terminator opens is passed. -/
theorem group {opener : TokenKind} (h : GroupAt all i j opener) (opening : opener.isOpener = true)
    (hend : opener ∉ terminators) : Clear all terminators i j := by
  have hlt := h.lt
  refine ⟨Nat.le_of_lt hlt, ?_⟩
  obtain ⟨⟨t, ht, rfl⟩, hcloses⟩ := h
  have hdrop : all.drop i = t :: all.drop (i + 1) := by
    rw [List.drop_eq_getElem_cons (List.getElem?_eq_some_iff.1 ht).1, (List.getElem?_eq_some_iff.1 ht).2]
  rw [hdrop] at hcloses ⊢
  rw [Skip.untilLength_opener opening (by simp [hend, TokenKind.isCloser_of_isOpener opening]), hcloses,
    ← hdrop]
  dsimp only
  rw [List.drop_drop, Nat.add_sub_cancel' (Nat.le_of_lt hlt)]

/-- What types are written with is passed by a search for anything else. -/
theorem ofType (h : OfType (between all i j)) (hend : ∀ kind ∈ terminators, kind.isOfType = false)
    (hij : i ≤ j) (hj : j ≤ all.length) : Clear all terminators i j := by
  refine ⟨hij, ?_⟩
  rw [← between_append_drop hij, Skip.untilLength_between h.nested fun t ht hmem => ?_, length_between hj]
  exact absurd (h.kinds t ht) (by simp [hend _ hmem])

/-- What a search for more terminators passes is passed. -/
theorem of_upTo (h : UpTo all more i j) (hsub : terminators ⊆ more) : Clear all terminators i j := by
  refine ⟨h.le, ?_⟩
  rw [Skip.untilLength_subset hsub h.search, List.drop_drop, Nat.add_sub_cancel' h.le]

/-- A search goes on behind what it passes. -/
theorem upTo (h : Clear all terminators i k) (h' : UpTo all terminators k j) : UpTo all terminators i j := by
  refine ⟨Nat.le_trans h.le h'.le, ?_⟩
  rw [h.search, h'.search, Skip.after_closed]
  congr 1
  have hle := h.le
  have hle' := h'.le
  omega

/-- A search ends before a terminator. -/
theorem stop {kind : TokenKind} (h : Clear all terminators i j) (hat : KindAt all j kind)
    (hend : kind ∈ terminators) :
    UpTo all terminators i j := by
  refine h.upTo ⟨Nat.le_refl j, ?_⟩
  obtain ⟨t, ht, rfl⟩ := hat
  rw [List.drop_eq_getElem_cons (List.getElem?_eq_some_iff.1 ht).1, (List.getElem?_eq_some_iff.1 ht).2,
    Skip.untilLength, if_pos ⟨rfl, .inl hend⟩, Nat.sub_self]

end Clear

end Token

end Graft
