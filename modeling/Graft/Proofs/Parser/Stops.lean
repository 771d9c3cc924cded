/-
Module: Graft.Proofs.Parser.Stops
Purpose: Where a search for a terminator stops, and where a group ends.
Main exports: Skip.StopsAt, Skip.ClosesAt, Skip.isLeast_stopsAt_iff, Skip.closesAt_iff,
  ParserState.skips_exact

Both are told by counting brackets of all three kinds together.  A search stops at the first token that is a
terminator or closes a bracket with a balanced stretch before it, and a group ends behind the bracket that
closes the one it starts with.  Where there is no such token all is passed, and a group that
is not closed is an error.
-/
import Mathlib.Order.Bounds.Basic
import Graft.Proofs.Parser.Brackets

namespace Graft

namespace Skip

variable {terminators : List TokenKind} {t opening : Token} {tokens rest : List Token} {depth n : Nat}

/-! ### Searches -/

/-- Before the token number `n` all brackets have been closed, `depth` of them open at first, and the token
is a terminator or closes one more. -/
def StopsBehind (terminators : List TokenKind) (depth : Nat) (tokens : List Token) (n : Nat) : Prop :=
  openBehind? depth (tokens.take n) = some 0 ∧ ∃ t ∈ tokens[n]?, t.kind ∈ terminators ∨
    t.kind.isCloser = true

/-- The tokens before number `n` balance by counting, and the token is a terminator or closes a bracket. -/
def StopsAt (terminators : List TokenKind) (tokens : List Token) (n : Nat) : Prop :=
  Token.Counted (tokens.take n) ∧ ∃ t ∈ tokens[n]?, t.kind ∈ terminators ∨ t.kind.isCloser = true

theorem stopsAt_iff : StopsAt terminators tokens n ↔ StopsBehind terminators 0 tokens n :=
  and_congr_left' balanced_iff_counted.symm

theorem stopsBehind_zero : StopsBehind terminators depth (t :: rest) 0 ↔
    depth = 0 ∧ (t.kind ∈ terminators ∨ t.kind.isCloser = true) := by
  simp [StopsBehind, openBehind?]

/-- Behind a token that is passed a search goes on with the brackets that are open then. -/
theorem stopsBehind_succ (h : ¬(depth = 0 ∧ t.kind.isCloser = true)) :
    StopsBehind terminators depth (t :: rest) (n + 1) ↔
    StopsBehind terminators (depthAfter depth t) rest n := by
  rw [StopsBehind, StopsBehind, List.take_succ_cons, openBehind?, if_neg h, List.getElem?_cons_succ]

theorem StopsBehind.lt_length (h : StopsBehind terminators depth tokens n) : n < tokens.length := by
  obtain ⟨-, t, ht, -⟩ := h
  exact (List.getElem?_eq_some_iff.1 ht).1

/-- A search does not pass a token at which it can stop. -/
theorem not_stopsBehind_of_lt (h : n < (untilLength terminators depth tokens).count) :
    ¬StopsBehind terminators depth tokens n := by
  induction tokens generalizing depth n with
  | nil => exact absurd h (Nat.not_lt_zero n)
  | cons t rest ih =>
      rw [untilLength] at h
      split at h
      · exact absurd h (Nat.not_lt_zero n)
      · rename_i hgo
        cases n with
        | zero =>
            rw [stopsBehind_zero]
            exact hgo
        | succ n =>
            rw [stopsBehind_succ fun hclose => hgo ⟨hclose.1, .inr hclose.2⟩]
            apply ih
            rw [Distance.after] at h
            dsimp only at h
            omega

/-- Where a search leaves tokens, it stops at the first of these, and outside all brackets. -/
theorem stopsBehind_of_lt (h : (untilLength terminators depth tokens).count < tokens.length) :
    ∃ count, untilLength terminators depth tokens = .closed count ∧
    StopsBehind terminators depth tokens count := by
  induction tokens generalizing depth with
  | nil => exact absurd h (Nat.not_lt_zero _)
  | cons t rest ih =>
      rw [untilLength] at h ⊢
      split
      · rename_i hstop
        exact ⟨0, rfl, stopsBehind_zero.2 hstop⟩
      · rename_i hgo
        rw [if_neg hgo, Distance.after, List.length_cons] at h
        dsimp only at h
        have hrest : (untilLength terminators (depthAfter depth t) rest).count < rest.length := by omega
        obtain ⟨count, hcount, hstops⟩ := ih hrest
        refine ⟨count + 1, ?_, (stopsBehind_succ fun hclose => hgo ⟨hclose.1, .inr hclose.2⟩).2 hstops⟩
        rw [hcount, Nat.add_comm]
        rfl

/-- A search stops at the first token at which it can. -/
theorem isLeast_stopsBehind_iff : IsLeast {n | StopsBehind terminators depth tokens n} n ↔
    untilLength terminators depth tokens = .closed n ∧ n < tokens.length := by
  constructor
  · rintro ⟨hstops, hleast⟩
    have hle : (untilLength terminators depth tokens).count ≤ n :=
      Nat.le_of_not_lt fun hlt => not_stopsBehind_of_lt hlt hstops
    obtain ⟨count, hcount, hfirst⟩ := stopsBehind_of_lt (Nat.lt_of_le_of_lt hle hstops.lt_length)
    rw [hcount] at hle
    obtain rfl : count = n := Nat.le_antisymm hle (hleast hfirst)
    exact ⟨hcount, hstops.lt_length⟩
  · rintro ⟨hcount, hlt⟩
    obtain ⟨count, hcount', hstops⟩ : ∃ count, untilLength terminators depth tokens = .closed count ∧
        StopsBehind terminators depth tokens count := stopsBehind_of_lt (by rw [hcount]; exact hlt)
    obtain rfl : n = count := congrArg Distance.count (hcount.symm.trans hcount')
    refine ⟨hstops, fun m hm => Nat.le_of_not_lt fun hless => not_stopsBehind_of_lt ?_ hm⟩
    rw [hcount]
    exact hless

/-- Outside all brackets a search stops at the first token before which they balance and which ends it. -/
theorem isLeast_stopsAt_iff : IsLeast {n | StopsAt terminators tokens n} n ↔
    untilLength terminators 0 tokens = .closed n ∧ n < tokens.length := by
  simp only [stopsAt_iff]
  exact isLeast_stopsBehind_iff

/-- A search that can stop nowhere passes all tokens. -/
theorem count_untilLength_eq_length_iff : (untilLength terminators 0 tokens).count = tokens.length ↔
    ¬∃ n, StopsAt terminators tokens n := by
  simp only [stopsAt_iff]
  constructor
  · rintro hcount ⟨n, hstops⟩
    exact not_stopsBehind_of_lt (by rw [hcount]; exact hstops.lt_length) hstops
  · intro hnone
    refine Nat.le_antisymm (count_untilLength_le _ _ _) (Nat.le_of_not_lt fun hlt => ?_)
    obtain ⟨count, -, hstops⟩ := stopsBehind_of_lt hlt
    exact hnone ⟨count, hstops⟩

/-! ### Groups -/

/-- The token number `n` closes the bracket that the first token opens: what stands between them balances by
counting. -/
def ClosesAt (tokens : List Token) (n : Nat) : Prop :=
  0 < n ∧ Token.Counted ((tokens.take n).tail) ∧ ∃ t ∈ tokens[n]?, t.kind.isCloser = true

theorem groupLength?_ne_zero : groupLength? depth tokens ≠ some 0 := fun h =>
  Nat.lt_irrefl 0 (groupLength?_bounds h).1

theorem map_groupLength?_eq_some_iff :
    (groupLength? depth tokens).map (· + 1) = some (n + 1) ↔ groupLength? depth tokens = some n := by
  simp

/-- The last of some brackets that are open is closed where a search without terminators
stops that has one less. -/
theorem groupLength?_eq_some_iff : groupLength? (depth + 1) tokens = some (n + 1) ↔
    StopsBehind [] depth tokens n := by
  induction tokens generalizing depth n with
  | nil => simp [groupLength?, StopsBehind]
  | cons t rest ih =>
      rw [groupLength?]
      by_cases hclose : depth = 0 ∧ t.kind.isCloser = true
      · obtain ⟨rfl, hcloser⟩ := hclose
        have hopener : t.kind.isOpener ≠ true := fun hopener => by
          rw [TokenKind.isCloser_of_isOpener hopener] at hcloser
          cases hcloser
        have hdepth : depthAfter 1 t = 0 := by rw [depthAfter, if_neg hopener, if_pos hcloser]
        rw [if_pos hdepth]
        cases n with
        | zero => exact iff_of_true rfl (stopsBehind_zero.2 ⟨rfl, .inr hcloser⟩)
        | succ n =>
            refine iff_of_false (by simp) fun hstops => ?_
            rw [StopsBehind, List.take_succ_cons, openBehind?, if_pos ⟨rfl, hcloser⟩] at hstops
            cases hstops.1
      · rw [depthAfter_add hclose, if_neg (Nat.succ_ne_zero _), map_groupLength?_eq_some_iff]
        cases n with
        | zero =>
            refine iff_of_false groupLength?_ne_zero fun hstops => ?_
            obtain ⟨hdepth, hmem | hcloser⟩ := stopsBehind_zero.1 hstops
            · cases hmem
            · exact hclose ⟨hdepth, hcloser⟩
        | succ n =>
            rw [stopsBehind_succ hclose]
            exact ih

theorem closesAt_cons : ClosesAt (opening :: rest) (n + 1) ↔ StopsBehind [] 0 rest n := by
  simp [ClosesAt, StopsBehind, ← balanced_iff_counted, Balanced]

/-- A group ends just behind the bracket that closes it. -/
theorem closesAt_iff (opener : opening.kind.isOpener = true) :
    ClosesAt (opening :: rest) n ↔ groupLength? 0 (opening :: rest) = some (n + 1) := by
  rw [groupLength?, depthAfter_opener opener, if_neg (Nat.succ_ne_zero _), map_groupLength?_eq_some_iff]
  cases n with
  | zero => exact iff_of_false (fun h => Nat.lt_irrefl 0 h.1) groupLength?_ne_zero
  | succ n => rw [closesAt_cons, groupLength?_eq_some_iff]

/-- A group whose bracket nothing closes does not end. -/
theorem groupLength?_eq_none_iff (opener : opening.kind.isOpener = true) :
    groupLength? 0 (opening :: rest) = none ↔ ¬∃ n, ClosesAt (opening :: rest) n := by
  simp only [closesAt_iff opener]
  cases hcount : groupLength? 0 (opening :: rest) with
  | none => simp
  | some count =>
      obtain ⟨n, rfl⟩ := Nat.exists_eq_add_one_of_ne_zero (Nat.ne_of_gt (groupLength?_bounds hcount).1)
      simp

end Skip

namespace ParserState

variable {s : ParserState} {terminators : List TokenKind}

theorem skipUntil_of_isLeast {q : Nat} (h : IsLeast {n | Skip.StopsAt terminators s.unread n} q) :
    s.skipUntil terminators = s.pass q := by
  rw [skipUntil, (Skip.isLeast_stopsAt_iff.1 h).1, passDistance_closed]

theorem unread_skipUntil_of_none (h : ¬∃ n, Skip.StopsAt terminators s.unread n) :
    (s.skipUntil terminators).unread = [] := by
  rw [skipUntil, unread_passDistance, Skip.count_untilLength_eq_length_iff.2 h, List.drop_length]

theorem exists_opening (h : s.current.kind.isOpener = true) :
    ∃ opening rest, s.unread = opening :: rest ∧ opening.kind.isOpener = true := by
  unfold current ahead at h
  cases hunread : s.unread with
  | nil =>
      rw [hunread] at h
      cases h
  | cons opening rest =>
      rw [hunread] at h
      exact ⟨opening, rest, rfl, h⟩

theorem skipGroup_of_closesAt {q : Nat} (opener : s.current.kind.isOpener = true)
    (h : Skip.ClosesAt s.unread q) :
    s.skipGroup = s.pass (q + 1) := by
  obtain ⟨opening, rest, hunread, hopener⟩ := exists_opening opener
  rw [hunread, Skip.closesAt_iff hopener, ← hunread] at h
  rw [skipGroup, h]

theorem skipGroup_of_none (opener : s.current.kind.isOpener = true) (h : ¬∃ q, Skip.ClosesAt s.unread q) :
    s.skipGroup = (s.pass s.unread.length).record ⟨.unclosedGroup, .point s.stop⟩ := by
  obtain ⟨opening, rest, hunread, hopener⟩ := exists_opening opener
  rw [hunread, ← Skip.groupLength?_eq_none_iff hopener, ← hunread] at h
  have hcurrent : (s.pass s.unread.length).current = .endOfFile s.stop := by
    rw [current, ahead, unread_pass, List.drop_length]
    rfl
  rw [skipGroup, h]
  dsimp only
  rw [passDistance, if_pos rfl, hcurrent]
  rfl

/-- A search stops at the first token behind a balanced stretch that is a terminator or closes a bracket, and
at the end of the source if there is none.  A group that the next token opens is passed with the bracket that
closes it; if nothing does, all is passed, which is an error unless one has been found before. -/
theorem skips_exact (s : ParserState) (terminators : List TokenKind) :
    (∀ q, IsLeast {n | Skip.StopsAt terminators s.unread n} q → s.skipUntil terminators = s.pass q) ∧
    ((¬∃ n, Skip.StopsAt terminators s.unread n) → (s.skipUntil terminators).unread = []) ∧
    (s.current.kind.isOpener = true →
      (∀ q, Skip.ClosesAt s.unread q → s.skipGroup = s.pass (q + 1)) ∧
      ((¬∃ q, Skip.ClosesAt s.unread q) →
        s.skipGroup = (s.pass s.unread.length).record ⟨.unclosedGroup, .point s.stop⟩) ∧
      (s.panicking = false → (s.skipGroup.errors = s.errors ++ [⟨.unclosedGroup, .point s.stop⟩] ↔
        ¬∃ q, Skip.ClosesAt s.unread q))) := by
  refine ⟨fun q => skipUntil_of_isLeast, unread_skipUntil_of_none, ?_⟩
  intro opener
  refine ⟨fun q => skipGroup_of_closesAt opener, skipGroup_of_none opener, ?_⟩
  intro quiet
  constructor
  · rintro herrors ⟨q, hq⟩
    rw [skipGroup_of_closesAt opener hq] at herrors
    simp [pass] at herrors
  · intro hnone
    have hquiet : (s.pass s.unread.length).panicking = false := quiet
    rw [skipGroup_of_none opener hnone, record, hquiet]
    rfl

/-- The tokens of `(a], b`. -/
def mixedTokens : List Token :=
  [⟨.leftParen, "(", ⟨0, 1, 1, 1⟩⟩, ⟨.identifier, "a", ⟨1, 1, 2, 1⟩⟩, ⟨.rightBracket, "]", ⟨2, 1, 3, 1⟩⟩,
    ⟨.comma, ",", ⟨3, 1, 4, 1⟩⟩, ⟨.identifier, "b", ⟨5, 1, 6, 1⟩⟩]

/-- The square bracket closes the parenthesis, so that the comma is outside; without it nothing is. -/
theorem skips_exact_mixed :
    let s : ParserState := ⟨⟨0⟩, mixedTokens, ⟨6, 1, 7⟩, none, [], false, 0⟩
    let u : ParserState := ⟨⟨0⟩, mixedTokens.take 2, ⟨2, 1, 3⟩, none, [], false, 0⟩
    s.skipUntil [.comma] = s.pass 3 ∧ s.skipGroup = s.pass 3 ∧ (u.skipUntil [.comma]).unread = [] ∧
      u.skipGroup.unread = [] ∧ u.skipGroup.errors = [⟨.unclosedGroup, ⟨2, 1, 3, 0⟩⟩] := by
  intro s u
  obtain ⟨hsearch, -, hgroup⟩ := skips_exact s [.comma]
  obtain ⟨-, hall, hopen⟩ := skips_exact u [.comma]
  have hnone : ¬∃ q, Skip.ClosesAt u.unread q := (Skip.groupLength?_eq_none_iff rfl).1 (by decide)
  obtain ⟨-, hend, herror⟩ := hopen rfl
  refine ⟨hsearch 3 (Skip.isLeast_stopsAt_iff.2 (by decide)),
    (hgroup rfl).1 2 ((Skip.closesAt_iff rfl).2 (by decide)),
    hall (Skip.count_untilLength_eq_length_iff.1 (by decide)), ?_, (herror rfl).2 hnone⟩
  rw [hend hnone]
  rfl

end ParserState

end Graft
