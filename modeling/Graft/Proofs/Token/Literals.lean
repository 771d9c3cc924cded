/-
Module: Graft.Proofs.Token.Literals
Purpose: What a text starts with where its first token is a literal.
Main exports: TokenKind.isLiteral, Piece.IsLiteral, Piece.isLiteral_of_kind?, Literal.Delimits,
  TokenStream.delimited

The class of a token tells how it was read.  A string is read from its marks and its opening quote on, a
character literal from its quote on, and a number from its first digit on.  The text of a plain string and
that of a character literal end with a quote again.
-/
import Graft.Literal.Text
import Graft.Proofs.Literal.Delimiters
import Graft.Proofs.Token.Word

namespace Graft

/-- A string, a character literal or a number. -/
def TokenKind.isLiteral : TokenKind → Bool
  | stringLiteral | verbatimString | interpolatedString | rawString | charLiteral | intLiteral
  | realLiteral => true
  | _ => false

/-- No operator is a literal. -/
theorem Operator.not_isLiteral_of_mem_table : ∀ entry ∈ table, entry.2.isLiteral = false := by decide

/-- No word is a literal. -/
theorem Keyword.not_isLiteral_getD (word : String) : ((kind? word).getD .identifier).isLiteral = false :=
  getD_of_forall (P := fun kind => kind.isLiteral = false) (by decide) (by decide) word

namespace Piece

/-- How the piece at the start of the text `first :: rest` is read, if it is a literal. -/
inductive IsLiteral (first : Char) (rest : List Char) : Piece → Prop where
  | string {marks : Literal.Marks} (read : Literal.readMarks ⟨0, false, false⟩ (first :: rest) = marks)
      (quote : ((first :: rest).drop marks.count).head? = some '"') :
      IsLiteral first rest (string marks (first :: rest))
  | char (quote : first = '\'') : IsLiteral first rest (char (first :: rest))
  | number (start : Number.starts (first :: rest) = true) :
      IsLiteral first rest (token (if (Number.extent (first :: rest)).isReal then .realLiteral else
        .intLiteral) (Number.extent (first :: rest)).count)

/-- A piece that is a literal is read as one. -/
theorem isLiteral_of_kind? {lineIsBlank : Bool} {first : Char} {rest : List Char} {kind : TokenKind}
    (h : (ofText lineIsBlank first rest).kind? = some kind) (literal : kind.isLiteral = true) :
    IsLiteral first rest (ofText lineIsBlank first rest) := by
  unfold ofText at h ⊢
  dsimp only at h ⊢
  split at h
  · cases h
  split at h
  · unfold comment at h
    dsimp only at h
    split at h <;> cases h
  split at h
  · cases h
  rename_i hline hcomment hdirective
  rw [if_neg hline, if_neg hcomment, if_neg hdirective]
  unfold scan at h ⊢
  dsimp only at h ⊢
  split at h
  · rename_i hquote
    rw [if_pos hquote]
    subst hquote
    exact .string rfl rfl
  rename_i hquote
  rw [if_neg hquote]
  split at h
  · rename_i hchar
    rw [if_pos hchar]
    exact .char hchar
  rename_i hchar
  rw [if_neg hchar]
  split at h
  · rename_i hmark
    rw [if_pos hmark]
    unfold marked at h ⊢
    split at h
    · obtain rfl := Option.some.inj h
      cases literal
    rename_i hname
    rw [if_neg hname]
    dsimp only at h ⊢
    split at h
    · rename_i hopening
      rw [if_pos hopening]
      exact .string rfl hopening
    · cases h
  rename_i hmark
  rw [if_neg hmark]
  split at h
  · rename_i hstart
    rw [if_pos hstart]
    exact .number hstart
  rename_i hstart
  split at h
  · obtain rfl := Option.some.inj h
    rw [Keyword.not_isLiteral_getD] at literal
    cases literal
  · split at h
    · rename_i hmatch
      obtain rfl := Option.some.inj h
      have hnone := Operator.not_isLiteral_of_mem_table _ (Operator.of_match?_eq_some hmatch).1
      rw [hnone] at literal
      cases literal
    · cases h

end Piece

/-! ### Delimiters -/

/-- What stands before and behind the text of a literal in which backslashes start escapes. -/
inductive Literal.Delimits : TokenKind → List Char → List Char → Prop where
  | regular {suffix : List Char} (h : suffix ∈ [] :: suffixes) :
      Delimits .stringLiteral ['"'] ('"' :: suffix)
  | holes {marks : List Char} (h : ∀ c ∈ marks, Literal.isMark c = true) (plain : '@' ∉ marks) :
      Delimits .interpolatedString (marks ++ ['"']) ['"']
  | character : Delimits .charLiteral ['\''] ['\'']

/-- Behind the text of a literal there is a quote at least. -/
theorem Literal.Delimits.exists_cons {kind : TokenKind} {opening closing : List Char}
    (h : Delimits kind opening closing) : ∃ quote more, closing = quote :: more := by
  cases h with
  | regular _ => exact ⟨_, _, rfl⟩
  | holes _ _ => exact ⟨_, _, rfl⟩
  | character => exact ⟨_, _, rfl⟩

namespace Piece

variable {b : Bool} {first : Char} {rest : List Char}

/-- A string whose class says that it has no marks opens a text. -/
theorem opened_of_kind? {marks : Literal.Marks} {text : List Char}
    (h : (string marks text).kind? = some .stringLiteral) : marks.verbatim = false ∧ marks.holes = false ∧
      Literal.opened false false (text.drop (marks.count + 1)) = .text false false := by
  obtain ⟨count, verbatim, holes⟩ := marks
  unfold string at h
  dsimp only at h ⊢
  split at h
  · have hkind := Option.some.inj h
    split at hkind
    · cases hkind
    · rename_i hraw
      obtain ⟨rfl, rfl⟩ : verbatim = false ∧ holes = false := by
        cases verbatim <;> cases holes <;> first | exact ⟨rfl, rfl⟩ | cases hkind
      unfold Literal.opened at hraw ⊢
      split
      · rename_i hquotes
        rw [if_pos hquotes] at hraw
        exact absurd rfl (hraw 1)
      · exact ⟨rfl, rfl, rfl⟩
  · cases h

/-- A plain string is the text between its quotes, and perhaps a suffix. -/
theorem take_of_regular (h : (ofText b first rest).kind? = some .stringLiteral) :
    ∃ body, ∃ suffix ∈ [] :: Literal.suffixes,
    (first :: rest).take (ofText b first rest).count = '"' :: (body ++ '"' :: suffix) := by
  have hliteral := isLiteral_of_kind? h rfl
  generalize ofText b first rest = piece at h hliteral
  cases hliteral with
  | char _ => cases kind_of_kind?_char h
  | number _ =>
      have hkind := Option.some.inj h
      split at hkind <;> cases hkind
  | @string marks read quote =>
      obtain ⟨hverbatim, hholes, hopened⟩ := opened_of_kind? h
      obtain rfl : marks = ⟨0, false, false⟩ := by
        rw [← read] at hverbatim hholes
        exact read.symm.trans (Literal.readMarks_plain hverbatim hholes)
      obtain rfl : first = '"' := Option.some.inj quote
      unfold string at h ⊢
      dsimp only [List.drop_succ_cons, List.drop_zero] at h hopened ⊢
      rw [hopened] at h ⊢
      split at h
      · rename_i closed
        obtain ⟨body, behind, rfl, hcount⟩ := Literal.flat_text.reach_closed closed
        rw [if_pos closed, Literal.Level.fresh, hcount]
        refine ⟨body, behind.take (Literal.suffixLength behind), ?_, ?_⟩
        · rcases Literal.suffixLength_cases behind with hnone | ⟨htwo, s, hs, more, rfl⟩
          · rw [hnone]
            exact List.mem_cons_self
          · have hlength : ∀ s ∈ Literal.suffixes, s.length = 2 := by decide
            rw [htwo, List.take_left' (hlength s hs)]
            exact List.mem_cons_of_mem _ hs
        · have hdrop : ('"' :: (body ++ '"' :: behind)).drop (1 + (body.length + 1)) = behind := by
            rw [Nat.add_comm, List.drop_succ_cons, List.append_cons, List.drop_left' (by simp)]
          have hfront : (body ++ ['"']).length = body.length + 1 := by simp
          rw [hdrop, Nat.add_assoc, Nat.add_comm 1, List.take_succ_cons, List.append_cons, ← hfront,
            List.take_length_add_append, List.append_assoc]
          rfl
      · cases h

/-- A character literal is the text between its quotes. -/
theorem take_of_char (h : (ofText b first rest).kind? = some .charLiteral) : ∃ body,
    (first :: rest).take (ofText b first rest).count = '\'' :: (body ++ ['\'']) := by
  have hliteral := isLiteral_of_kind? h rfl
  generalize ofText b first rest = piece at h hliteral
  cases hliteral with
  | string _ _ => cases isString_of_kind?_string h
  | number _ =>
      have hkind := Option.some.inj h
      split at hkind <;> cases hkind
  | char quote =>
      subst quote
      unfold char at h ⊢
      dsimp only [List.drop_succ_cons, List.drop_zero] at h ⊢
      split at h
      · rename_i closed
        obtain ⟨body, behind, rfl, hcount⟩ := (Literal.flat_char 0).reach_closed closed
        refine ⟨body, ?_⟩
        rw [if_pos closed, token, Literal.Level.fresh, hcount, Nat.add_comm, List.take_succ_cons,
          List.append_cons, List.take_left' (by simp)]
      · cases h

end Piece

/-- In the texts of plain strings and of character literals something stands between the delimiters. -/
theorem TokenStream.delimited (before : Cursor) : ∀ t ∈ (ofCursor before).tokens,
    t.kind = .stringLiteral ∨ t.kind = .charLiteral →
      ∃ opening body closing, Literal.Delimits t.kind opening closing ∧
      t.lexeme.toList = opening ++ (body ++ closing) := by
  refine forall_tokens (fun c first rest kind hrest hpiece hkind => ?_) before
  change kind = _ ∨ kind = _ at hkind
  change ∃ opening body closing, Literal.Delimits kind opening closing ∧
    (String.ofList (c.rest.take _)).toList = opening ++ (body ++ closing)
  rw [hrest, String.toList_ofList]
  rcases hkind with rfl | rfl
  · obtain ⟨body, suffix, hsuffix, htake⟩ := Piece.take_of_regular hpiece
    exact ⟨['"'], body, '"' :: suffix, .regular hsuffix, htake⟩
  · obtain ⟨body, htake⟩ := Piece.take_of_char hpiece
    exact ⟨['\''], body, ['\''], .character, htake⟩

end Graft
