/-
Module: Graft.Proofs.Token.Canonical
Purpose: The texts of tokens with single spaces between them have these tokens again.
Main exports: Literal.exists_closing, Piece.seam_of_kind?, Piece.ofText_alone, TokenStream.ofText_joined

A token is read with some characters behind it in sight.  None of them makes it longer or shorter than it is
before a space: words and operators are as long as can be, and a string or a character literal ends with the
character that closes it, or with a suffix that no word goes on.  A number is cut off wherever it ends.
-/
import Graft.Proofs.Token.Spells
import Graft.Proofs.Token.ByteOrderMark

namespace Graft

open Text (Stops Seam)

/-! ### The last characters of literals -/

namespace Literal

/-- A character that closes a level is a quote or a brace, and no word goes on with it. -/
theorem not_identContinue_of_leave {inside : Inside} {count : Nat} {c : Char} {ahead : List Char}
    (h : move inside count c ahead = .leave) : Text.isIdentContinue c = false := by
  have hclosing : c ∈ ['"', '\'', '}'] := by
    cases inside with
    | text verbatim holes =>
        unfold move at h
        dsimp only at h
        split at h
        · rename_i hquote
          simp [hquote]
        · repeat' split at h
          all_goals cases h
    | quotes n =>
        unfold move at h
        dsimp only at h
        split at h <;> cases h
    | raw n run =>
        unfold move at h
        dsimp only at h
        split at h
        · rename_i hquote
          simp [hquote]
        · cases h
    | marks verbatim holes =>
        unfold move at h
        dsimp only at h
        repeat' split at h
        all_goals cases h
    | hole depth =>
        unfold move at h
        dsimp only at h
        split at h
        · cases h
        split at h
        · rename_i hbrace
          simp [hbrace]
        · repeat' split at h
          all_goals cases h
    | char first =>
        unfold move at h
        dsimp only at h
        split at h
        · cases h
        split at h
        · rename_i hquote
          simp [hquote]
        · split at h <;> cases h
  have hall : ['"', '\'', '}'].all (!Text.isIdentContinue ·) = true := by decide
  simpa using List.all_eq_true.1 hall c hclosing

/-- The last character of a literal that closes is one that closes a level. -/
theorem exists_closing : ∀ {stack : List Level} {count : Nat} {text : List Char}, stack ≠ [] →
    (reach stack count text).closed = true → ∃ a c v, text = a ++ c :: v ∧
      (reach stack count text).count = count + a.length + 1 ∧ Text.isIdentContinue c = false
  | [], _, _, hopen, _ => absurd rfl hopen
  | level :: outer, count, [], _, closed => by
      have hmore := add_length_le_reach _ _ _ closed
      have hle := reach_le _ _ _ closed
      simp only [List.length_cons, List.length_nil] at hmore hle
      omega
  | level :: outer, count, d :: rest, _, closed => by
      rw [reach_cons] at closed ⊢
      have hstep : ∀ {stack : List Level} (extra : Nat), stack ≠ [] → extra ≤ rest.length →
          (reach stack (count + 1 + extra) (rest.drop extra)).closed = true → ∃ a c v,
            d :: rest = a ++ c :: v ∧
            (reach stack (count + 1 + extra) (rest.drop extra)).count = count + a.length + 1 ∧
              Text.isIdentContinue c = false := by
        intro stack extra hopen hextra hclosed
        obtain ⟨a, c, v, hrest, hcount, hc⟩ := exists_closing hopen hclosed
        refine ⟨d :: (rest.take extra ++ a), c, v, ?_, ?_, hc⟩
        · rw [List.cons_append, List.append_assoc, ← hrest, List.take_append_drop]
        · rw [hcount, List.length_cons, List.length_append, List.length_take, Nat.min_eq_left hextra]
          omega
      cases hmove : move level.inside count d rest with
      | pass extra inside =>
          rw [hmove] at closed
          have hmore := add_length_le_reach _ _ _ closed
          have hle := reach_le _ _ _ closed
          rw [List.length_drop] at hle
          simp only [List.length_cons] at hmore
          exact hstep extra (List.cons_ne_nil _ _) (by omega) closed
      | enter nested =>
          rw [hmove] at closed
          exact hstep 0 (List.cons_ne_nil _ _) (Nat.zero_le _) closed
      | leave =>
          rw [hmove] at closed
          cases outer with
          | nil => exact ⟨[], d, rest, rfl, rfl, not_identContinue_of_leave hmove⟩
          | cons outside outer => exact hstep 0 (List.cons_ne_nil _ _) (Nat.zero_le _) closed
      | cut first =>
          rw [hmove] at closed
          cases outer with
          | nil => cases closed
          | cons outside outer => exact hstep 0 (List.cons_ne_nil _ _) (Nat.zero_le _) closed
      | fail =>
          rw [hmove] at closed
          cases closed
termination_by _ _ text => text.length

/-- No word goes on behind a suffix that asks for UTF-8. -/
theorem not_identContinue_behind_suffix {text : List Char} (h : suffixLength text ≠ 0) :
    (text.drop (suffixLength text)).head?.any Text.isIdentContinue = false := by
  unfold suffixLength at h ⊢
  split at h
  · split at h
    · rename_i hsuffix
      rw [if_pos hsuffix]
      simp only [Bool.and_eq_true, Bool.not_eq_true'] at hsuffix
      exact hsuffix.2
    · exact absurd rfl h
  · exact absurd rfl h

end Literal

/-! ### Where pieces are cut off -/

/-- Behind a character that goes on with no word a text may be cut off. -/
theorem Text.seam_of_closing {a v text : List Char} {c : Char} {count : Nat} (htext : text = a ++ c :: v)
    (hcount : count = a.length + 1) (hc : isIdentContinue c = false) :
    Seam (text.take count) (text.drop count) := by
  refine .inl ?_
  rw [htext, hcount, List.append_cons, List.take_left' (by simp), List.getLast?_concat]
  exact hc

/-- A run of the characters that words go on with is cut off from what follows. -/
theorem Text.seam_of_run {x text : List Char} :
    Seam ((x ++ text).take (x.length + Number.runLength isIdentContinue text))
      ((x ++ text).drop (x.length + Number.runLength isIdentContinue text)) := by
  refine .inr ?_
  rw [← List.drop_drop, List.drop_left, TokenStream.drop_runLength]
  have hhead := List.head?_dropWhile_not isIdentContinue text
  cases hrest : text.dropWhile isIdentContinue with
  | nil => rfl
  | cons c rest =>
      rw [hrest] at hhead
      exact hhead

/-- No operator ends with a character that words go on with. -/
theorem Operator.not_identContinue_getLast : ∀ entry ∈ table,
    ∃ front, ∃ c, entry.1 = front ++ [c] ∧ Text.isIdentContinue c = false := by
  have hall : ∀ entry ∈ table, entry.1 ≠ [] ∧ entry.1.getLast?.any Text.isIdentContinue = false := by decide
  intro entry hentry
  obtain ⟨hne, hlast⟩ := hall entry hentry
  rw [List.getLast?_eq_some_getLast hne] at hlast
  exact ⟨entry.1.dropLast, entry.1.getLast hne, (List.dropLast_append_getLast hne).symm, hlast⟩

namespace Piece

variable {b b' : Bool} {first : Char} {rest v : List Char} {kind : TokenKind}

theorem seam_string {marks : Literal.Marks} {text : List Char} (quote : marks.count < text.length)
    (h : (string marks text).kind? = some kind) :
    Seam (text.take (string marks text).count) (text.drop (string marks text).count) := by
  unfold string at h ⊢
  dsimp only at h ⊢
  split at h
  · rename_i closed
    rw [if_pos closed]
    obtain ⟨a, c, v, hbehind, hcount, hc⟩ := Literal.exists_closing (List.cons_ne_nil _ _) closed
    generalize Literal.reach _ _ _ = extent at hcount ⊢
    by_cases hsuffix : Literal.suffixLength (text.drop extent.count) = 0
    · rw [hsuffix, Nat.add_zero]
      refine Text.seam_of_closing (a := text.take (marks.count + 1) ++ a) (c := c) (v := v) ?_ ?_ hc
      · rw [List.append_assoc, ← hbehind, List.take_append_drop]
      · rw [hcount, List.length_append, List.length_take, Nat.min_eq_left quote]
    · refine .inr ?_
      rw [← List.drop_drop]
      exact Literal.not_identContinue_behind_suffix hsuffix
  · cases h

theorem seam_char (h : (char (first :: rest)).kind? = some kind) :
    Seam ((first :: rest).take (char (first :: rest)).count)
      ((first :: rest).drop (char (first :: rest)).count) := by
  unfold char at h ⊢
  dsimp only [List.drop_succ_cons, List.drop_zero] at h ⊢
  split at h
  · rename_i closed
    rw [if_pos closed]
    obtain ⟨a, c, v, hbehind, hcount, hc⟩ := Literal.exists_closing (List.cons_ne_nil _ _) closed
    refine Text.seam_of_closing (a := first :: a) (c := c) (v := v) (congrArg (first :: ·) hbehind) ?_ hc
    rw [token, hcount, List.length_cons, Nat.add_comm 1]
  · cases h

theorem seam_marked (h : (marked first rest).kind? = some kind) :
    Seam ((first :: rest).take (marked first rest).count)
      ((first :: rest).drop (marked first rest).count) := by
  unfold marked at h ⊢
  split at h
  · rename_i hname
    rw [if_pos hname]
    exact Text.seam_of_run (x := [first])
  · rename_i hname
    rw [if_neg hname]
    dsimp only at h ⊢
    split at h
    · rename_i hquote
      rw [if_pos hquote]
      exact seam_string (Number.lt_length_of_head?_drop (p := (· = '"')) (by rw [hquote]; rfl)) h
    · cases h

/-- A token other than a number ends with a character that no word goes on with, or
no word goes on behind it. -/
theorem seam_of_kind? (h : (ofText b first rest).kind? = some kind)
    (number : Number.starts (first :: rest) = false) :
    Seam ((first :: rest).take (ofText b first rest).count)
      ((first :: rest).drop (ofText b first rest).count) := by
  unfold ofText at h ⊢
  dsimp only at h ⊢
  split at h
  · cases h
  split at h
  · unfold comment at h
    dsimp only at h
    split at h <;> cases h
  split at h
  · cases h
  rename_i hline hcomment hdirective
  rw [if_neg hline, if_neg hcomment, if_neg hdirective]
  unfold scan at h ⊢
  dsimp only at h ⊢
  rw [number] at h ⊢
  split at h
  · rename_i hquote
    rw [if_pos hquote]
    exact seam_string (Nat.succ_pos _) h
  rename_i hquote
  rw [if_neg hquote]
  split at h
  · rename_i hchar
    rw [if_pos hchar]
    exact seam_char h
  rename_i hchar
  rw [if_neg hchar]
  split at h
  · rename_i hmark
    rw [if_pos hmark]
    exact seam_marked h
  rename_i hmark
  rw [if_neg Bool.false_ne_true] at h
  rw [if_neg hmark, if_neg Bool.false_ne_true]
  split at h
  · rename_i hstart
    rw [if_pos hstart]
    rw [word, token, ← Nat.zero_add (identifierLength _)]
    exact Text.seam_of_run (x := [])
  · rename_i hstart
    rw [if_neg hstart]
    split at h
    · rename_i lexeme _ hmatch
      obtain ⟨hmem, v, hv⟩ := Operator.of_match?_eq_some hmatch
      obtain ⟨front, c, rfl, hc⟩ := Operator.not_identContinue_getLast _ hmem
      exact Text.seam_of_closing (hv.symm.trans (List.append_assoc _ _ _)) List.length_append hc
    · cases h

/-- A number starts a text. -/
theorem ofText_number (h : Number.starts (first :: rest) = true) : ofText b first rest =
    token (if (Number.extent (first :: rest)).isReal then .realLiteral else .intLiteral)
      (Number.extent (first :: rest)).count := by
  have hne : ∀ c : Char, c.isDigit = false → c ≠ '.' → first ≠ c := by
    rintro _ hc hpoint rfl
    simp [Number.starts, hc, hpoint] at h
  have hslash := hne '/' (by decide) (by decide)
  unfold ofText scan
  simp [List.isPrefixOf, hne '#' (by decide) (by decide), hne '"' (by decide) (by decide),
    hne '\'' (by decide) (by decide), hne '@' (by decide) (by decide), hne '$' (by decide) (by decide), h,
    hslash.symm]

/-- A token does not depend on what follows it if a space does. -/
theorem ofText_alone (h : (ofText b first (rest ++ v)).kind? = some kind)
    (sound : (ofText b first (rest ++ v)).faults = [])
    (hcount : (ofText b first (rest ++ v)).count = rest.length + 1) {v' : List Char} (stop : Stops v') :
    ofText b' first (rest ++ v') = ⟨rest.length + 1, some kind, []⟩ := by
  have hsame : ofText b' first (rest ++ v') = ofText b first (rest ++ v) := by
    cases hnumber : Number.starts (first :: rest ++ v) with
    | true =>
        have hpiece : ofText b first (rest ++ v) = _ := ofText_number hnumber
        have hfit : (Number.extent (first :: rest ++ v)).count ≤ rest.length + 1 := by
          rw [← hcount, hpiece]
          exact Nat.le_refl _
        have hstarts : Number.starts (first :: (rest ++ v')) = true :=
          (Number.starts_append (fun _ => hfit) stop).trans hnumber
        have hextent := Number.extent_append (List.cons_ne_nil first rest) hfit stop
        rw [List.cons_append, List.cons_append] at hextent
        rw [hpiece, ofText_number hstarts, hextent]
    | false =>
        have hseam := seam_of_kind? h hnumber
        rw [hcount, ← List.cons_append, ← List.length_cons, List.take_left, List.drop_left] at hseam
        refine ofText_append (Nat.le_of_eq hcount) sound (.inl (by rw [h]; rfl)) ?_ stop hseam
        rintro rfl
        -- behind blanks `#` starts a directive, and elsewhere nothing
        cases b with
        | true =>
            rw [ofText_directive] at h
            cases h
        | false =>
            rw [ofText_hash] at h
            cases h
  rw [hsame, ← hcount, ← h, ← sound]

end Piece

/-! ### Texts of tokens -/

namespace TokenStream

variable {source : String} {t : Token}

/-- The texts of tokens, with single spaces between them. -/
def joined (toks : List Token) : String := " ".intercalate (toks.map (·.lexeme))

/-- The text of a token is not empty, and before a space it is this token wherever it stands. -/
theorem exists_alone (clean : (ofText source).errors = []) (mem : t ∈ (ofText source).tokens) :
    ∃ first rest, t.lexeme.toList = first :: rest ∧ isLead first = false ∧
      ∀ b v, Stops v → Piece.ofText b first (rest ++ v) = ⟨rest.length + 1, some t.kind, []⟩ := by
  obtain ⟨pre, post, htokens⟩ := List.append_of_mem mem
  obtain ⟨d, -, ⟨⟨first, behind, hd, hplain⟩, hfaults⟩, ht, -⟩ := reads_of_tokens clean htokens
  have hpiece := pieceAt_of_rest hd
  have hle := hpiece ▸ Piece.ofText_le (hpiece ▸ hfaults)
  obtain ⟨kind, hkind, htoken⟩ := Option.map_eq_some_iff.1 (Option.toList_eq_singleton_iff.1 ht)
  obtain ⟨n, hn⟩ := Nat.exists_eq_add_one_of_ne_zero (Nat.ne_of_gt (count_pieceAt_pos hd))
  have hlength : (behind.take n).length = n := by
    rw [List.length_take]
    omega
  refine ⟨first, behind.take n, ?_, hplain, fun b v stop => ?_⟩
  · rw [← htoken, tokenAt, String.toList_ofList, hd, hn, List.take_succ_cons]
  · have hsplit := List.take_append_drop n behind
    rw [hpiece, ← hsplit] at hkind hfaults hn
    rw [← htoken]
    exact Piece.ofText_alone hkind hfaults (hn.trans (by rw [hlength])) stop

/-- Texts that are tokens before a space spell these, with spaces between them. -/
theorem spells_joined {W : List Char} {toks : List Token} (alone : ∀ t ∈ toks, ∃ first rest,
    t.lexeme.toList = first :: rest ∧ isLead first = false ∧
      ∀ b v, Stops v → Piece.ofText b first (rest ++ v) = ⟨rest.length + 1, some t.kind, []⟩) :
    Spells W (joined toks).toList [] (Marked (toks.map Token.mark)) := by
  have htoken : ∀ t ∈ toks, ∀ v, Stops v → Spells W t.lexeme.toList v (Marked [t.mark]) := by
    intro t ht v stop
    obtain ⟨first, rest, hlexeme, hplain, hpiece⟩ := alone t ht
    have hspells := spells_piece (W := W) first rest (some t.kind) hplain fun b => hpiece b v stop
    rw [← hlexeme, String.ofList_toList] at hspells
    exact hspells
  induction toks with
  | nil => exact .nil rfl
  | cons t toks ih =>
      have hfirst := htoken t List.mem_cons_self
      cases toks with
      | nil => simpa [joined] using hfirst [] (fun _ h => by cases h)
      | cons u toks =>
          have hnext := ih (fun t ht => alone t (List.mem_cons_of_mem _ ht))
            fun t ht => htoken t (List.mem_cons_of_mem _ ht)
          obtain ⟨first, rest, hlexeme, hplain, -⟩ := alone u (List.mem_cons_of_mem _ List.mem_cons_self)
          have hhead : ∃ w, (joined (u :: toks)).toList = first :: w := by
            cases toks <;> simp [joined, hlexeme]
          obtain ⟨w, hw⟩ := hhead
          have hjoined : (joined (t :: u :: toks)).toList =
              t.lexeme.toList ++ ([' '] ++ (joined (u :: toks)).toList) := by
            simp [joined, String.intercalate_cons_cons]
          have hblank : Spells W [' '] (joined (u :: toks)).toList (Marked []) := by
            refine spells_lead (by decide) ?_
            rw [hw]
            rintro hmark
            obtain rfl := Option.some.inj hmark
            simp [isLead] at hplain
          rw [hjoined]
          rw [← List.append_nil (joined (u :: toks)).toList] at hblank
          refine (hfirst _ ?_).marked (hblank.marked hnext)
          rintro c hc
          obtain rfl := Option.some.inj hc
          exact .inl rfl

/-- If a source is read without errors, so are the texts of its tokens with single spaces between them, and
they are these tokens again. -/
theorem ofText_joined (source : String) (clean : (ofText source).errors = []) :
    (ofText (joined (ofText source).tokens)).errors = [] ∧
      (ofText (joined (ofText source).tokens)).tokens.map Token.mark =
      (ofText source).tokens.map Token.mark := by
  obtain ⟨toks, stop, hstream, hmarks⟩ := ofText_of_spells
    (spells_joined fun _ ht => exists_alone clean ht)
  rw [hstream]
  exact ⟨rfl, hmarks⟩

/-- Tokens that stand without blanks between them are the same ones when they are put apart. -/
theorem ofText_joined_dense :
    (ofText "$\"a{b}\"u8+1.e2.5f??=@if>>x1e+y").errors = [] ∧
      joined (ofText "$\"a{b}\"u8+1.e2.5f??=@if>>x1e+y").tokens =
        "$\"a{b}\"u8 + 1 . e2 .5f ??= @if > > x1e + y" ∧
      (ofText (joined (ofText "$\"a{b}\"u8+1.e2.5f??=@if>>x1e+y").tokens)).errors = [] ∧
      (ofText (joined (ofText "$\"a{b}\"u8+1.e2.5f??=@if>>x1e+y").tokens)).tokens.map Token.mark =
        (ofText "$\"a{b}\"u8+1.e2.5f??=@if>>x1e+y").tokens.map Token.mark := by
  have clean : (ofText "$\"a{b}\"u8+1.e2.5f??=@if>>x1e+y").errors = [] := by decide +kernel
  exact ⟨clean, by decide +kernel, ofText_joined _ clean⟩

end TokenStream

end Graft
