/-
Module: Graft.Proofs.Parser.Skipping
Purpose: The loops that pass tokens without keeping them, one round at a time.
Main exports: ParserState.closeGroup_eq, ParserState.skipUntil_eq, ParserState.resume_eq,
  ParserState.synchronize_lt

How far to go is a length of the unread tokens.  Here the lengths are taken apart into rounds: what a
round sees is the next token alone, and it stops there, passes it, or passes the group that it opens.
-/
import Graft.Proofs.Parser.Nesting

namespace Graft

/-! ### Lengths -/

namespace Skip

/-- A group is some of the tokens, and not none of them. -/
theorem groupLength?_bounds {depth : Nat} {tokens : List Token} {count : Nat}
    (h : groupLength? depth tokens = some count) : 0 < count ∧ count ≤ tokens.length := by
  induction tokens generalizing depth count with
  | nil => cases h
  | cons t rest ih =>
      rw [groupLength?] at h
      split at h
      · cases h
        exact ⟨Nat.one_pos, Nat.succ_le_succ (Nat.zero_le _)⟩
      · obtain ⟨n, hn, rfl⟩ := Option.map_eq_some_iff.1 h
        exact ⟨Nat.succ_pos _, Nat.succ_le_succ (ih hn).2⟩

/-- Inside brackets a search first leaves the group, and goes on behind it. -/
theorem untilLength_inside (terminators : List TokenKind) (depth : Nat) (tokens : List Token) :
    untilLength terminators (depth + 1) tokens =
      match groupLength? (depth + 1) tokens with
      | some count => .after count (untilLength terminators 0 (tokens.drop count))
      | none => ⟨tokens.length, true⟩ := by
  induction tokens generalizing depth with
  | nil => simp [untilLength, groupLength?]
  | cons t rest ih =>
      rw [untilLength, if_neg (by omega), groupLength?]
      rcases hdepth : depthAfter (depth + 1) t with _ | inner
      · rfl
      · rw [if_neg (Nat.succ_ne_zero _), ih]
        cases groupLength? (inner + 1) rest with
        | none => simp [Distance.after, Nat.add_comm]
        | some count =>
            dsimp only [Option.map_some]
            rw [after_after, Nat.add_comm 1, List.drop_succ_cons]

/-- A search stays within the tokens. -/
theorem count_untilLength_le (terminators : List TokenKind) (depth : Nat) (tokens : List Token) :
    (untilLength terminators depth tokens).count ≤ tokens.length := by
  induction tokens generalizing depth with
  | nil => exact Nat.le_refl _
  | cons t rest ih =>
      rw [untilLength]
      split
      · exact Nat.zero_le _
      · have hrest := ih (depthAfter depth t)
        rw [List.length_cons, Distance.after]
        dsimp only
        omega

theorem depthAfter_opener {t : Token} (h : t.kind.isOpener = true) (depth : Nat) :
    depthAfter depth t = depth + 1 := by
  rw [depthAfter, if_pos h]

/-- A search that does not end at an opening bracket goes on behind the group that it starts. -/
theorem untilLength_opener {terminators : List TokenKind} {t : Token} {rest : List Token}
    (opener : t.kind.isOpener = true) (notEnd : ¬(t.kind ∈ terminators ∨ t.kind.isCloser = true)) :
    untilLength terminators 0 (t :: rest) =
      match groupLength? 0 (t :: rest) with
      | some count => .after count (untilLength terminators 0 ((t :: rest).drop count))
      | none => ⟨(t :: rest).length, true⟩ := by
  rw [untilLength, if_neg fun h => notEnd h.2, groupLength?, depthAfter_opener opener,
    if_neg (Nat.succ_ne_zero _), untilLength_inside]
  cases groupLength? (0 + 1) rest with
  | none => simp [Distance.after, Nat.add_comm]
  | some count =>
      dsimp only [Option.map_some]
      rw [after_after, Nat.add_comm 1, List.drop_succ_cons]

/-- After an error reading goes on behind the next token at least, unless that is a `}`. -/
theorem count_resumeLength_pos {t : Token} {rest : List Token} (h : t.kind ≠ .rightBrace) :
    0 < (resumeLength false (t :: rest)).count := by
  rw [resumeLength]
  by_cases hsemicolon : t.kind = .semicolon
  · rw [if_pos hsemicolon]
    exact Nat.one_pos
  rw [if_neg hsemicolon, if_neg h]
  by_cases hopener : t.kind.isOpener = true
  · rw [if_pos hopener]
    cases hcount : groupLength? 0 (t :: rest) with
    | none => exact Nat.succ_pos _
    | some count =>
        have hpos := (groupLength?_bounds hcount).1
        dsimp only
        split
        · exact Nat.add_pos_left hpos _
        · exact Nat.add_pos_left hpos _
  · rw [if_neg hopener, Bool.false_and, if_neg Bool.false_ne_true]
    exact Nat.add_pos_left Nat.one_pos _

end Skip

namespace ParserState

variable (s : ParserState)

/-! ### Passing tokens -/

@[simp] theorem unread_pass (count : Nat) : (s.pass count).unread = s.unread.drop count := rfl

@[simp] theorem pass_zero : s.pass 0 = s := by
  simp [pass]

theorem pass_pass (m n : Nat) : (s.pass m).pass n = s.pass (m + n) := by
  have hlast : (((s.unread.drop m).take n).getLast? <|> (s.unread.take m).getLast? <|> s.last?) =
      ((s.unread.take (m + n)).getLast? <|> s.last?) := by
    rw [List.take_add, List.getLast?_append]
    cases ((s.unread.drop m).take n).getLast? <;> rfl
  simp only [pass, List.drop_drop]
  rw [hlast]

theorem passDistance_closed (count : Nat) : s.passDistance (.closed count) = s.pass count := rfl

theorem passDistance_after (count : Nat) (d : Skip.Distance) :
    s.passDistance (.after count d) = (s.pass count).passDistance d := by
  simp only [passDistance, Skip.Distance.after, pass_pass]
  rfl

variable {s}

theorem atEnd_iff : s.atEnd = true ↔ s.unread = [] := List.isEmpty_iff

/-- Where something is left to read, the next token is the first one unread. -/
theorem exists_unread (h : s.atEnd = false) : ∃ t rest, s.unread = t :: rest ∧ t = s.current := by
  unfold atEnd at h
  unfold current ahead
  cases hunread : s.unread with
  | nil => rw [hunread] at h; cases h
  | cons t rest => exact ⟨t, rest, rfl, rfl⟩

/-- Whether the next token is of a class that does not mark the end is seen from the unread tokens. -/
theorem check_eq_any {kind : TokenKind} (h : kind ≠ .endOfFile) :
    s.check kind = s.unread.head?.any (·.kind = kind) := by
  unfold check current ahead
  cases s.unread with
  | nil => exact decide_eq_false h.symm
  | cons t rest => rfl

/-- Nothing of a class that does not mark the end comes at the end. -/
theorem atEnd_of_check {kind : TokenKind} (h : kind ≠ .endOfFile) (hcheck : s.check kind = true) :
    s.atEnd = false := by
  rw [check_eq_any h] at hcheck
  unfold atEnd
  cases hunread : s.unread with
  | nil => rw [hunread] at hcheck; cases hcheck
  | cons t rest => rfl

/-- A token of a class that comes next is the first one, and behind it are those that
are left when it is passed. -/
theorem exists_of_check {kind : TokenKind} (h : s.check kind = true)
    (hkind : kind ≠ .endOfFile := by decide) :
    ∃ t, s.unread = t :: (s.pass 1).unread ∧ t = s.current ∧ t.kind = kind := by
  obtain ⟨t, rest, hunread, rfl⟩ := exists_unread (atEnd_of_check hkind h)
  refine ⟨_, ?_, rfl, of_decide_eq_true h⟩
  rw [pass, hunread, List.drop_one, List.tail_cons]

/-- The next token is seen from the unread ones. -/
theorem current_congr {t : ParserState} (h : t.unread = s.unread) (hend : s.atEnd = false) :
    t.atEnd = false ∧ t.current = s.current := by
  obtain ⟨c, rest, hunread, rfl⟩ := exists_unread hend
  rw [hunread] at h
  exact ⟨by rw [atEnd, h]; rfl, by rw [current, ahead, h]; rfl⟩

theorem length_pos (h : s.atEnd = false) : 0 < s.unread.length := by
  obtain ⟨t, rest, hunread, -⟩ := exists_unread h
  rw [hunread]
  exact Nat.succ_pos _

/-- Passing a token gets on where something is left to read. -/
theorem pass_lt (h : s.atEnd = false) {count : Nat} (hpos : 0 < count) :
    (s.pass count).unread.length < s.unread.length := by
  have hlength := length_pos h
  rw [unread_pass, List.length_drop]
  omega

theorem pass_lt_of_check {kind : TokenKind} (h : kind ≠ .endOfFile) (hcheck : s.check kind = true) :
    (s.pass 1).unread.length < s.unread.length := pass_lt (atEnd_of_check h hcheck) Nat.one_pos

@[simp] theorem unread_record (e : ParseError) : (s.record e).unread = s.unread := by
  unfold record
  split <;> rfl

@[simp] theorem unread_passDistance (d : Skip.Distance) :
    (s.passDistance d).unread = s.unread.drop d.count := by
  unfold passDistance
  dsimp only
  split
  · rw [unread_record, unread_pass]
  · rw [unread_pass]

variable (s)

/-! ### Groups -/

/-- Pass tokens until no bracket is open any more, with `depth` of them open before. -/
def closeGroup (depth : Nat) : ParserState :=
  match Skip.groupLength? depth s.unread with
  | some count => s.pass count
  | none => s.passDistance ⟨s.unread.length, true⟩

theorem skipGroup_eq : s.skipGroup = s.closeGroup 0 := rfl

/-- A round passes one token, and the last one leaves no bracket open; at the end of the source the
group is not closed. -/
theorem closeGroup_eq (depth : Nat) :
    s.closeGroup depth =
      if s.atEnd then s.record ⟨.unclosedGroup, s.current.span⟩
      else if Skip.depthAfter depth s.current = 0 then s.pass 1
      else (s.pass 1).closeGroup (Skip.depthAfter depth s.current) := by
  cases hend : s.atEnd with
  | true =>
      have hunread := atEnd_iff.1 hend
      simp [closeGroup, hunread, Skip.groupLength?, passDistance]
  | false =>
      obtain ⟨t, rest, hunread, rfl⟩ := exists_unread hend
      have hrest : (s.pass 1).unread = rest := by rw [unread_pass, hunread]; rfl
      rw [if_neg Bool.false_ne_true, closeGroup, closeGroup, hrest, hunread, Skip.groupLength?]
      by_cases hdepth : Skip.depthAfter depth s.current = 0
      · rw [if_pos hdepth, if_pos hdepth]
      · rw [if_neg hdepth, if_neg hdepth]
        cases Skip.groupLength? (Skip.depthAfter depth s.current) rest with
        | none =>
            dsimp only [Option.map_none]
            rw [← passDistance_after, Skip.Distance.after, List.length_cons, Nat.add_comm]
        | some count =>
            dsimp only [Option.map_some]
            rw [pass_pass, Nat.add_comm]

theorem skipGroup_lt (h : s.atEnd = false) : s.skipGroup.unread.length < s.unread.length := by
  unfold skipGroup
  split
  · rename_i count hcount
    exact pass_lt h (Skip.groupLength?_bounds hcount).1
  · rw [unread_passDistance, List.drop_length]
    exact length_pos h

/-! ### Searching for a terminator -/

/-- A round stops before a terminator or a closing bracket, and otherwise passes the next token, with
the group that it opens. -/
theorem skipUntil_eq (terminators : List TokenKind) :
    s.skipUntil terminators =
      if s.atEnd then s
      else if s.current.kind ∈ terminators ∨ s.current.kind.isCloser = true then s
      else if s.current.kind.isOpener then s.skipGroup.skipUntil terminators
      else (s.pass 1).skipUntil terminators := by
  cases hend : s.atEnd with
  | true =>
      rw [if_pos rfl, skipUntil, atEnd_iff.1 hend]
      exact s.pass_zero
  | false =>
      obtain ⟨t, rest, hunread, rfl⟩ := exists_unread hend
      rw [if_neg Bool.false_ne_true]
      split
      · rename_i hstop
        rw [skipUntil, hunread, Skip.untilLength, if_pos ⟨rfl, hstop⟩]
        exact s.pass_zero
      · rename_i hstop
        split
        · rename_i hopener
          rw [skipUntil, hunread, Skip.untilLength_opener hopener hstop, ← hunread, skipGroup]
          cases Skip.groupLength? 0 s.unread with
          | none =>
              dsimp only
              rw [skipUntil, unread_passDistance, List.drop_length]
              exact (pass_zero _).symm
          | some count =>
              dsimp only
              rw [passDistance_after]
              rfl
        · rename_i hopener
          have hdepth : Skip.depthAfter 0 s.current = 0 := by
            rw [Skip.depthAfter, if_neg hopener]
            split <;> rfl
          have hrest : (s.pass 1).unread = rest := by rw [unread_pass, hunread]; rfl
          rw [skipUntil, hunread, Skip.untilLength, if_neg fun h => hstop h.2, hdepth,
            passDistance_after, skipUntil, hrest]

/-! ### Going on after an error -/

/-- Go on after an error, where tokens have been passed since or not. -/
def resume (moved : Bool) : ParserState := s.passDistance (Skip.resumeLength moved s.unread)

theorem synchronize_eq : s.synchronize = { s with panicking := false }.resume false := rfl

/-- A round stops before a closing brace, before a keyword that starts a declaration once tokens have
been passed, behind a `;`, or behind a group of braces and the `;` that may follow it; otherwise it
passes the next token, with the group that it opens. -/
theorem resume_eq (moved : Bool) :
    s.resume moved =
      if s.atEnd then s
      else if s.current.kind = .semicolon then s.pass 1
      else if s.current.kind = .rightBrace then s
      else if s.current.kind = .leftBrace then
        if s.skipGroup.check .semicolon then s.skipGroup.pass 1 else s.skipGroup
      else if s.current.kind.isOpener then s.skipGroup.resume true
      else if moved && Skip.startsDeclaration s.current.kind then s
      else (s.pass 1).resume true := by
  cases hend : s.atEnd with
  | true =>
      rw [if_pos rfl, resume, atEnd_iff.1 hend, Skip.resumeLength]
      exact s.pass_zero
  | false =>
      obtain ⟨t, rest, hunread, rfl⟩ := exists_unread hend
      have hrest : (s.pass 1).unread = rest := by rw [unread_pass, hunread]; rfl
      have hdrop : ∀ {count}, Skip.groupLength? 0 s.unread = some count →
          (s.pass count).unread = rest.drop (count - 1) := by
        intro count hcount
        obtain ⟨n, rfl⟩ := Nat.exists_eq_add_one_of_ne_zero
          (Nat.ne_of_gt (Skip.groupLength?_bounds hcount).1)
        rw [unread_pass, hunread]
        rfl
      rw [if_neg Bool.false_ne_true, resume, hunread, Skip.resumeLength]
      by_cases hsemicolon : s.current.kind = .semicolon
      · rw [if_pos hsemicolon, if_pos hsemicolon]
        rfl
      rw [if_neg hsemicolon, if_neg hsemicolon]
      by_cases hclose : s.current.kind = .rightBrace
      · rw [if_pos hclose, if_pos hclose]
        exact s.pass_zero
      rw [if_neg hclose, if_neg hclose, ← hunread]
      by_cases hbrace : s.current.kind = .leftBrace
      · rw [if_pos hbrace, if_pos (by rw [hbrace]; rfl), skipGroup]
        cases hcount : Skip.groupLength? 0 s.unread with
        | none =>
            have hend : (s.passDistance ⟨s.unread.length, true⟩).check .semicolon = false := by
              rw [check_eq_any (by decide), unread_passDistance, List.drop_length]
              rfl
            dsimp only
            rw [hend, if_neg Bool.false_ne_true, hunread, List.length_cons]
        | some count =>
            dsimp only
            rw [if_pos hbrace, passDistance_closed, check_eq_any (by decide), hdrop hcount]
            split
            · rw [pass_pass]
            · rfl
      rw [if_neg hbrace]
      by_cases hopener : s.current.kind.isOpener = true
      · rw [if_pos hopener, if_pos hopener, skipGroup]
        cases hcount : Skip.groupLength? 0 s.unread with
        | none =>
            dsimp only
            rw [resume, unread_passDistance, List.drop_length, Skip.resumeLength, passDistance_closed,
              pass_zero, hunread, List.length_cons]
        | some count =>
            dsimp only
            rw [if_neg hbrace, passDistance_after, resume, hdrop hcount]
      · rw [if_neg hopener, if_neg hopener]
        split
        · exact s.pass_zero
        · rw [passDistance_after, resume, hrest]

/-- After an error reading gets on, unless the next token is a `}`. -/
theorem synchronize_lt (h : s.atEnd = false) (notBrace : s.current.kind ≠ .rightBrace) :
    s.synchronize.unread.length < s.unread.length := by
  obtain ⟨t, rest, hunread, rfl⟩ := exists_unread h
  have hpos : 0 < (Skip.resumeLength false (s.current :: rest)).count :=
    Skip.count_resumeLength_pos notBrace
  rw [← hunread] at hpos
  have hlength := length_pos h
  rw [synchronize, unread_passDistance, List.length_drop]
  exact Nat.sub_lt hlength hpos

end ParserState

end Graft
