/-
Module: Graft.Proofs.Literal.Delimiters
Purpose: What stands around the text of a literal.
Main exports: Literal.suffixes, Literal.first_of_readMarks, Literal.Flat, Literal.Flat.reach_closed

Marks and a quote stand before the text of a string, and a quote with a suffix that asks for UTF-8 may stand
behind it.  A level in which no further one opens is closed by the first quote that no
backslash takes with it.
-/
import Graft.Proofs.Literal.Passes

namespace Graft

namespace Literal

variable {marks : Marks} {x suffix : List Char} {first : Char} {rest : List Char}

/-- The suffixes that ask for UTF-8. -/
def suffixes : List (List Char) := [['u', '8'], ['U', '8']]

theorem suffixLength_cases (text : List Char) :
    suffixLength text = 0 ∨ suffixLength text = 2 ∧ ∃ s ∈ suffixes, s <+: text := by
  unfold suffixLength
  split
  · rename_i u rest
    split
    · rename_i h
      refine .inr ⟨rfl, ?_⟩
      simp only [Bool.and_eq_true, Bool.or_eq_true, decide_eq_true_eq] at h
      rcases h.1 with rfl | rfl
      · exact ⟨['u', '8'], by decide, rest, rfl⟩
      · exact ⟨['U', '8'], by decide, rest, rfl⟩
    · exact .inl rfl
  · exact .inl rfl

theorem withoutSuffix_append (x : List Char) (hsuffix : suffix ∈ suffixes) :
    withoutSuffix (x ++ suffix) = x := by
  rcases List.mem_pair.1 hsuffix with rfl | rfl
  · rw [withoutSuffix, dropEnding?_append]
    rfl
  · have hother : dropEnding? ['u', '8'] (x ++ ['U', '8']) = none := by
      simp [dropEnding?, List.isSuffixOf, List.isPrefixOf]
    rw [withoutSuffix, hother, dropEnding?_append]
    rfl

theorem withoutSuffix_of_plain (plain : ∀ s ∈ suffixes, ¬s <:+ x) : withoutSuffix x = x := by
  have hnone : ∀ s ∈ suffixes, dropEnding? s x = none := fun s hs =>
    if_neg fun h => plain s hs (List.isSuffixOf_iff_suffix.1 h)
  rw [withoutSuffix, hnone ['u', '8'] (by decide), hnone ['U', '8'] (by decide)]
  rfl

/-- What is found between two marks stands between them. -/
theorem eq_of_between? {opening closing lexeme body : List Char}
    (h : between? opening closing lexeme = some body) :
    lexeme = opening ++ (body ++ closing) := by
  obtain ⟨inner, hinner, hbody⟩ := Option.bind_eq_some_iff.1 h
  unfold dropBeginning? at hinner
  split at hinner
  · rename_i hopening
    obtain ⟨more, rfl⟩ := List.isPrefixOf_iff_prefix.1 hopening
    rw [List.drop_left] at hinner
    obtain rfl := Option.some.inj hinner
    unfold dropEnding? at hbody
    split at hbody
    · rename_i hclosing
      obtain ⟨front, rfl⟩ := List.isSuffixOf_iff_suffix.1 hclosing
      rw [List.length_append, Nat.add_sub_cancel, List.take_left] at hbody
      rw [Option.some.inj hbody]
    · cases hbody
  · cases hinner

/-- Behind a suffix a string with holes has no closing quote and no text. -/
theorem interpolated_append (x : List Char) (hsuffix : suffix ∈ suffixes) :
    interpolated (x ++ suffix) = .ok (some []) := by
  have hopen : ∀ n, between? ['"'] ['"'] ((x ++ suffix).drop n) = none := by
    intro n
    cases hbetween : between? ['"'] ['"'] ((x ++ suffix).drop n) with
    | none => rfl
    | some body =>
        exfalso
        have hclosing : ['"'] <:+ (x ++ suffix).drop n := by
          rw [eq_of_between? hbetween, ← List.append_assoc]
          exact List.suffix_append _ _
        obtain ⟨front, hfront⟩ := hclosing.trans (List.drop_suffix n _)
        have hlast := congrArg List.getLast? hfront
        rcases List.mem_pair.1 hsuffix with rfl | rfl <;> simp at hlast
  unfold interpolated
  dsimp only
  rw [hopen]
  change (if _ then _ else _ : Except Nat (Option (List Char))) = _
  split
  · rfl
  · rw [unescape.eq_def]
    rfl

/-! ### Marks -/

theorem readMarks_of_head? (h : ∀ c ∈ x.head?, c ≠ '@' ∧ c ≠ '$') : readMarks marks x = marks := by
  unfold readMarks
  split
  · exact absurd rfl (h '@' rfl).1
  · exact absurd rfl (h '$' rfl).2
  · rfl

/-- What a mark has said stays said. -/
theorem readMarks_mono (marks : Marks) (text : List Char) :
    (marks.verbatim = true → (readMarks marks text).verbatim = true) ∧
      (marks.holes = true → (readMarks marks text).holes = true) := by
  fun_induction readMarks marks text <;> simp_all

/-- A string that is neither verbatim nor with holes has no marks. -/
theorem readMarks_plain (verbatim : (readMarks ⟨0, false, false⟩ x).verbatim = false)
    (holes : (readMarks ⟨0, false, false⟩ x).holes = false) :
    readMarks ⟨0, false, false⟩ x = ⟨0, false, false⟩ := by
  refine readMarks_of_head? fun c hc => ⟨?_, ?_⟩
  · rintro rfl
    obtain ⟨rest, rfl⟩ := List.head?_eq_some_iff.1 hc
    exact Bool.false_ne_true (verbatim.symm.trans ((readMarks_mono ⟨1, true, false⟩ rest).1 rfl))
  · rintro rfl
    obtain ⟨rest, rfl⟩ := List.head?_eq_some_iff.1 hc
    exact Bool.false_ne_true (holes.symm.trans ((readMarks_mono ⟨1, false, true⟩ rest).2 rfl))

/-- What is read as a string starts with a quote, or with a mark that a quote or one more mark follows. -/
theorem first_of_readMarks (read : readMarks ⟨0, false, false⟩ (first :: rest) = marks)
    (quote : ((first :: rest).drop marks.count).head? = some '"') :
    first = '"' ∨ (first = '@' ∨ first = '$') ∧ ∃ c ∈ rest.head?, c = '"' ∨ c = '@' ∨ c = '$' := by
  by_cases hfirst : first = '@' ∨ first = '$'
  · refine .inr ⟨hfirst, ?_⟩
    by_cases hmore : ∀ c ∈ rest.head?, c ≠ '@' ∧ c ≠ '$'
    · have hone : marks.count = 1 := by
        rcases hfirst with rfl | rfl <;>
        · rw [readMarks, readMarks_of_head? hmore] at read
          subst read
          rfl
      rw [hone] at quote
      exact ⟨'"', quote, .inl rfl⟩
    · push Not at hmore
      obtain ⟨c, hc, hmark⟩ := hmore
      exact ⟨c, hc, .inr (Decidable.or_iff_not_imp_left.2 hmark)⟩
  · have hplain : ∀ c ∈ (first :: rest).head?, c ≠ '@' ∧ c ≠ '$' := by
      intro c hc
      obtain rfl := Option.some.inj hc
      exact not_or.1 hfirst
    rw [readMarks_of_head? hplain] at read
    rw [← read] at quote
    exact .inl (Option.some.inj quote)

/-! ### Quotes -/

/-- A level that opens no other one and that only a quote closes. -/
structure Flat (quote : Char) (inside : Inside) : Prop where
  pass : ∀ {count c ahead extra next}, move inside count c ahead = .pass extra next → next = inside
  enter : ∀ {count c ahead nested}, move inside count c ahead ≠ .enter nested
  leave : ∀ {count c ahead}, move inside count c ahead = .leave → c = quote

/-- A string without marks. -/
theorem flat_text : Flat '"' (.text false false) where
  pass h := by
    simp only [move] at h
    grind
  enter h := by
    simp only [move] at h
    grind
  leave h := by
    simp only [move] at h
    grind

/-- A character literal. -/
theorem flat_char (start : Nat) : Flat '\'' (.char start) where
  pass h := by
    simp only [move] at h
    grind
  enter h := by
    simp only [move] at h
    grind
  leave h := by
    simp only [move] at h
    grind

/-- Up to its closing quote a literal is read. -/
theorem Flat.reach_closed {quote : Char} {inside : Inside} (flat : Flat quote inside) {cuts : List Cut}
    {count : Nat} {text : List Char} (closed : (reach [⟨inside, cuts⟩] count text).closed = true) :
      ∃ body behind, text = body ++ quote :: behind ∧ (reach [⟨inside, cuts⟩] count text).count =
        count + (body.length + 1) := by
  -- an escape passes two characters at once
  induction hlength : text.length using Nat.strongRecOn generalizing count text with
  | _ length ih =>
      cases text with
      | nil =>
          rw [reach.eq_def] at closed
          cases inside <;> cases closed
      | cons c rest =>
          rw [reach_cons] at closed ⊢
          dsimp only at closed ⊢
          cases hmove : move inside count c rest with
          | pass extra next =>
              obtain rfl := flat.pass hmove
              rw [hmove] at closed
              obtain ⟨body, behind, hrest, hcount⟩ := ih _ (by
                rw [← hlength, List.length_drop, List.length_cons]
                omega) closed rfl
              have hsplit := List.take_append_drop extra rest
              have htake : (rest.take extra).length = extra := by
                have hlength := congrArg List.length hrest
                rw [List.length_drop, List.length_append, List.length_cons] at hlength
                rw [List.length_take]
                omega
              refine ⟨c :: (rest.take extra ++ body), behind, ?_, hcount.trans ?_⟩
              · rw [List.cons_append, List.append_assoc, ← hrest, hsplit]
              · rw [List.length_cons, List.length_append, htake]
                omega
          | enter => exact absurd hmove flat.enter
          | leave =>
              obtain rfl := flat.leave hmove
              exact ⟨[], rest, rfl, rfl⟩
          | cut first =>
              rw [hmove] at closed
              cases closed
          | fail =>
              rw [hmove] at closed
              cases closed

end Literal

end Graft
