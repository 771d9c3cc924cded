/-
Module: Graft.Proofs.Token.Bounds
Purpose: No sound piece reaches past the end of its text.
Main exports: Number.extent_le, Literal.reach_le, Piece.ofText_le

Lengths are counted ahead of the characters they cover, so that each of them is bounded by what is
left of the text.
-/
import Graft.Proofs.Literal.Seam
import Graft.Token.Lexer

namespace Graft

/-! ### Numbers -/

namespace Number

theorem runLength_le (p : Char → Bool) (text : List Char) : runLength p text ≤ text.length :=
  (List.takeWhile_prefix p).length_le

/-- Where a text can be cut before a character, it goes on. -/
theorem lt_length_of_head?_drop {p : Char → Bool} {text : List Char} {n : Nat}
    (h : (text.drop n).head?.any p = true) : n < text.length := by
  refine Nat.lt_of_not_le fun hle => ?_
  rw [List.drop_eq_nil_of_le hle] at h
  cases h

theorem fractionLength_le (text : List Char) : fractionLength text ≤ text.length := by
  unfold fractionLength
  split
  · rename_i d rest
    have hrun := runLength_le isDigitOrSeparator (d :: rest)
    split <;> simp only [List.length_cons] at * <;> omega
  · exact Nat.zero_le _

theorem exponentLength_le (text : List Char) : exponentLength text ≤ text.length := by
  unfold exponentLength
  split
  · rename_i e rest
    dsimp only
    generalize (if rest.head?.any (fun s => s = '+' || s = '-') then 1 else 0) = sign
    split
    · split
      · rename_i hdigit
        have hlt := lt_length_of_head?_drop hdigit
        have hrun := runLength_le isDigitOrSeparator (rest.drop sign)
        rw [List.length_drop] at hrun
        rw [List.length_cons]
        omega
      · exact Nat.zero_le _
    · exact Nat.zero_le _
  · exact Nat.zero_le _

theorem decimalExtent_le (text : List Char) : (decimalExtent text).count ≤ text.length := by
  unfold decimalExtent
  dsimp only
  generalize hwhole : runLength isDigitOrSeparator text = whole
  generalize hfraction : fractionLength (text.drop whole) = fraction
  generalize hexponent : exponentLength (text.drop (whole + fraction)) = exponent
  have hwhole' := runLength_le isDigitOrSeparator text
  have hfraction' := fractionLength_le (text.drop whole)
  have hexponent' := exponentLength_le (text.drop (whole + fraction))
  rw [List.length_drop] at hfraction' hexponent'
  split
  · rename_i hsuffix
    exact lt_length_of_head?_drop hsuffix
  · split
    · have hrun := runLength_le isIntSuffix (text.drop (whole + fraction + exponent))
      rw [List.length_drop] at hrun
      dsimp only
      omega
    · dsimp only
      omega

/-- A number ends inside its text. -/
theorem extent_le (text : List Char) : (extent text).count ≤ text.length := by
  unfold extent
  split
  · rename_i mark rest
    split
    · have hdigits := runLength_le (fun c => isHexDigit c || c = '_') rest
      have hsuffix := runLength_le isIntSuffix
        (rest.drop (runLength (fun c => isHexDigit c || c = '_') rest))
      rw [List.length_drop] at hsuffix
      simp only [List.length_cons]
      omega
    · exact decimalExtent_le _
  · exact decimalExtent_le _

end Number

/-! ### Strings and characters -/

namespace Literal

/-- A literal that closes ends inside its text. -/
theorem reach_le (stack : List Level) (count : Nat) (text : List Char)
    (closed : (reach stack count text).closed = true) :
    (reach stack count text).count ≤ count + text.length := by
  fun_induction reach stack count text with
  | case1 => simp
  | case2 | case3 | case8 | case10 => simp [Extent.unclosed] at closed
  | case4 count level outer c rest extra inside hmove ih =>
      have hrest := ih closed
      have hmore := add_length_le_reach _ _ _ closed
      rw [List.length_drop] at hrest
      simp only [List.length_cons] at hmore ⊢
      omega
  | case5 count level outer c rest nested hmove ih =>
      have hrest := ih closed
      simp only [List.length_cons]
      omega
  | case6 => simp
  | case7 count level c rest hmove outside outer ih =>
      have hrest := ih closed
      simp only [List.length_cons]
      omega
  | case9 count level c rest first hmove outside outer ih =>
      have hrest := ih closed
      simp only [List.length_cons]
      omega

theorem suffixLength_le (text : List Char) : suffixLength text ≤ text.length := by
  unfold suffixLength
  split
  · split <;> simp
  · exact Nat.zero_le _

end Literal

/-! ### Pieces -/

namespace Piece

theorem commentLength_le (text : List Char) : (commentLength text).1 ≤ text.length := by
  fun_induction commentLength text <;> simp_all

/-- A string whose quote is in the text is closed there. -/
theorem string_le {marks : Literal.Marks} {text : List Char} (sound : (string marks text).faults = [])
    (quote : marks.count < text.length) : (string marks text).count ≤ text.length := by
  unfold string at sound ⊢
  dsimp only at sound ⊢
  split at sound
  · rename_i hclosed
    have hreach := Literal.reach_le _ _ _ hclosed
    rw [if_pos hclosed]
    generalize Literal.reach [.fresh (Literal.opened marks.verbatim marks.holes
      (text.drop (marks.count + 1)))] (marks.count + 1) (text.drop (marks.count + 1)) = extent at hreach ⊢
    have hsuffix := Literal.suffixLength_le (text.drop extent.count)
    rw [List.length_drop] at hreach hsuffix
    dsimp only
    omega
  · simp at sound

theorem char_le {text : List Char} (sound : (char text).faults = []) (quote : 0 < text.length) :
    (char text).count ≤ text.length := by
  unfold char at sound ⊢
  dsimp only at sound ⊢
  split at sound
  · rename_i hclosed
    have hreach := Literal.reach_le _ _ _ hclosed
    rw [if_pos hclosed]
    rw [List.length_drop] at hreach
    simp only [token]
    omega
  · simp [broken] at sound

theorem marked_le {first : Char} {rest : List Char} (sound : (marked first rest).faults = []) :
    (marked first rest).count ≤ rest.length + 1 := by
  unfold marked at sound ⊢
  split
  · have hrun := Number.runLength_le Text.isIdentContinue rest
    simp only [token, identifierLength]
    omega
  · rename_i hname
    rw [if_neg hname] at sound
    dsimp only at sound ⊢
    split at sound
    · rename_i hquote
      rw [if_pos hquote]
      exact string_le sound (Number.lt_length_of_head?_drop (p := (· = '"')) (by rw [hquote]; rfl))
    · simp [broken] at sound

theorem scan_le {first : Char} {rest : List Char} (sound : (scan first rest).faults = []) :
    (scan first rest).count ≤ rest.length + 1 := by
  unfold scan at sound ⊢
  dsimp only at sound ⊢
  split
  · rename_i h
    rw [if_pos h] at sound
    exact string_le sound (Nat.succ_pos _)
  rename_i h
  rw [if_neg h] at sound
  split
  · rename_i h
    rw [if_pos h] at sound
    exact char_le sound (Nat.succ_pos _)
  rename_i h
  rw [if_neg h] at sound
  split
  · rename_i h
    rw [if_pos h] at sound
    exact marked_le sound
  rename_i h
  rw [if_neg h] at sound
  split
  · exact Number.extent_le _
  rename_i h
  rw [if_neg h] at sound
  split
  · exact Number.runLength_le _ _
  rename_i h
  rw [if_neg h] at sound
  split at sound
  · rename_i lexeme kind hmatch
    exact (Operator.of_match?_eq_some hmatch).2.length_le
  · simp [broken] at sound

/-- A piece without faults ends inside its text. -/
theorem ofText_le {b : Bool} {first : Char} {rest : List Char} (sound : (ofText b first rest).faults = []) :
    (ofText b first rest).count ≤ rest.length + 1 := by
  unfold ofText at sound ⊢
  dsimp only at sound ⊢
  split
  · exact Number.runLength_le _ _
  rename_i h
  rw [if_neg h] at sound
  split
  · rename_i h
    have htwo := (List.isPrefixOf_iff_prefix.1 h).length_le
    have hlength := commentLength_le ((first :: rest).drop 2)
    rw [List.length_drop] at hlength
    unfold comment
    dsimp only
    split <;> simp only [separator, broken, List.length_cons, List.length_nil] at * <;> omega
  rename_i h
  rw [if_neg h] at sound
  split
  · exact Number.runLength_le _ _
  · rename_i h
    rw [if_neg h] at sound
    exact scan_le sound

end Piece

end Graft
