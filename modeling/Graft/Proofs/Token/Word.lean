/-
Module: Graft.Proofs.Token.Word
Purpose: What the names of identifier tokens and the texts of built-in types look like.
Main exports: Text.IsWord, Piece.kind?_ofText_identifier, Token.isWord_name, Token.lexeme_mem_predefinedTypes
-/
import Mathlib.Data.List.TakeWhile
import Graft.Token.Lexer

namespace Graft

/-- A text that starts like an identifier and goes on like one. -/
def Text.IsWord (text : String) : Prop :=
  ∃ first rest, text.toList = first :: rest ∧ isIdentStart first = true ∧
    ∀ c ∈ rest, isIdentContinue c = true

/-- A word is not empty. -/
theorem Text.IsWord.ne_empty {text : String} (word : IsWord text) : text ≠ "" := by
  rintro rfl
  obtain ⟨first, rest, h, -⟩ := word
  cases h

/-! ### Pieces -/

namespace Operator

/-- No operator is read as an identifier or as a built-in type. -/
theorem kind_not_mem : ∀ entry ∈ table, entry.2 ∉ [TokenKind.identifier, .predefinedType] := by decide

end Operator

namespace Piece

open Number (runLength)

/-- An identifier that starts a text: a word, perhaps after `@`. -/
inductive IsIdentifier (first : Char) (rest : List Char) : Nat → Prop where
  | plain (start : Text.isIdentStart first = true) (unmarked : first ≠ '@') :
      IsIdentifier first rest (identifierLength (first :: rest))
  | marked (mark : first = '@') (start : rest.head?.any Text.isIdentStart = true) :
      IsIdentifier first rest (1 + identifierLength rest)

theorem isString_of_kind?_string {marks : Literal.Marks} {text : List Char} {kind : TokenKind}
    (h : (string marks text).kind? = some kind) : kind.isString = true := by
  have hstring : ∀ verbatim holes, (stringKind verbatim holes).isString = true := by decide
  unfold string at h
  dsimp only at h
  split at h
  · obtain rfl := Option.some.inj h
    split
    · rfl
    · exact hstring _ _
  · cases h

theorem kind_of_kind?_char {text : List Char} {kind : TokenKind} (h : (char text).kind? = some kind) :
    kind = .charLiteral := by
  unfold char at h
  dsimp only at h
  split at h
  · exact (Option.some.inj h).symm
  · cases h

private theorem kind?_marked {first : Char} {rest : List Char}
    (h : (marked first rest).kind? = some .identifier) :
    IsIdentifier first rest (marked first rest).count := by
  unfold marked at h ⊢
  split
  · rename_i hmark
    simp only [Bool.and_eq_true, decide_eq_true_eq] at hmark
    exact .marked hmark.1 hmark.2
  · rename_i hmark
    rw [if_neg hmark] at h
    dsimp only at h
    split at h
    · cases isString_of_kind?_string h
    · cases h

/-- A piece that is an identifier is a word, perhaps after `@`. -/
theorem kind?_ofText_identifier {lineIsBlank : Bool} {first : Char} {rest : List Char}
    (h : (ofText lineIsBlank first rest).kind? = some .identifier) :
    IsIdentifier first rest (ofText lineIsBlank first rest).count := by
  unfold ofText at h ⊢
  dsimp only at h ⊢
  split at h
  · cases h
  split at h
  · unfold comment at h
    dsimp only at h
    split at h <;> cases h
  split at h
  · cases h
  rename_i hline hcomment hdirective
  rw [if_neg hline, if_neg hcomment, if_neg hdirective]
  unfold scan at h ⊢
  dsimp only at h ⊢
  split at h
  · cases isString_of_kind?_string h
  split at h
  · cases kind_of_kind?_char h
  rename_i hquote hchar
  rw [if_neg hquote, if_neg hchar]
  split at h
  · rename_i hmark
    rw [if_pos hmark]
    exact kind?_marked h
  rename_i hmark
  rw [if_neg hmark]
  split at h
  · simp only [token] at h
    split at h <;> cases h
  rename_i hnumber
  rw [if_neg hnumber]
  split at h
  · rename_i hstart
    rw [if_pos hstart]
    exact .plain hstart (by rintro rfl; simp at hmark)
  · split at h
    · rename_i hmatch
      exact absurd (Option.some.inj h ▸ List.mem_cons_self)
        (Operator.kind_not_mem _ (Operator.of_match?_eq_some hmatch).1)
    · cases h

/-- A piece that is a built-in type is a word. -/
theorem ofText_predefinedType {lineIsBlank : Bool} {first : Char} {rest : List Char}
    (h : (ofText lineIsBlank first rest).kind? = some .predefinedType) :
    ofText lineIsBlank first rest = word (first :: rest) := by
  unfold ofText at h ⊢
  dsimp only at h ⊢
  split at h
  · cases h
  split at h
  · unfold comment at h
    dsimp only at h
    split at h <;> cases h
  split at h
  · cases h
  rename_i hline hcomment hdirective
  rw [if_neg hline, if_neg hcomment, if_neg hdirective]
  unfold scan at h ⊢
  dsimp only at h ⊢
  split at h
  · cases isString_of_kind?_string h
  split at h
  · cases kind_of_kind?_char h
  rename_i hquote hchar
  rw [if_neg hquote, if_neg hchar]
  split at h
  · unfold marked at h
    dsimp only at h
    split at h
    · cases h
    · split at h
      · cases isString_of_kind?_string h
      · cases h
  rename_i hmark
  rw [if_neg hmark]
  split at h
  · simp only [token] at h
    split at h <;> cases h
  rename_i hnumber
  rw [if_neg hnumber]
  split at h
  · rename_i hstart
    rw [if_pos hstart]
  · split at h
    · rename_i hmatch
      exact absurd (Option.some.inj h ▸ List.mem_cons_of_mem _ List.mem_cons_self)
        (Operator.kind_not_mem _ (Operator.of_match?_eq_some hmatch).1)
    · cases h

end Piece

/-- What holds of the classes of reserved words and of identifiers holds of the class of each word. -/
theorem Keyword.getD_of_forall {P : TokenKind → Prop} (reserved : ∀ entry ∈ structural, P entry.2)
    (more : ∀ kind ∈ [TokenKind.modifier, .predefinedType, .keyword, .identifier], P kind) (word : String) :
    P ((kind? word).getD .identifier) := by
  unfold kind?
  cases hlookup : structural.lookup word with
  | some kind =>
      obtain ⟨front, back, hentries, -⟩ := List.lookup_eq_some_iff.1 hlookup
      exact reserved (word, kind) (by simp [hentries])
  | none =>
      change P ((if _ then _ else if _ then _ else if _ then _ else none : Option TokenKind).getD
        .identifier)
      split
      · exact more _ (by simp)
      split
      · exact more _ (by simp)
      split <;> exact more _ (by simp)

/-- The words of the class of built-in types are their names. -/
theorem Keyword.mem_predefinedTypes {word : String} (h : kind? word = some .predefinedType) :
    word ∈ predefinedTypes := by
  have hmem : ∀ {list : List (String × TokenKind)}, list.lookup word = some .predefinedType →
      .predefinedType ∈ list.map Prod.snd := by
    intro list
    induction list with
    | nil => exact fun h => by cases h
    | cons entry rest ih =>
        intro h
        rw [List.lookup_cons] at h
        split at h
        · exact List.mem_map.2 ⟨entry, List.mem_cons_self, Option.some.inj h⟩
        · exact List.mem_cons_of_mem _ (ih h)
  have hstructural : TokenKind.predefinedType ∉ structural.map Prod.snd := by decide
  unfold kind? at h
  cases hlookup : structural.lookup word with
  | some kind =>
      rw [hlookup] at h
      exact absurd (hmem (hlookup.trans h)) hstructural
  | none =>
      rw [hlookup] at h
      change (if modifiers.contains word then _ else _ : Option TokenKind) = _ at h
      split at h
      · cases h
      · split at h
        · rename_i hin
          exact List.contains_iff_mem.1 hin
        · split at h <;> cases h

/-! ### Tokens -/

/-- A token without its place. -/
def Token.mark (t : Token) : TokenKind × String := (t.kind, t.lexeme)

namespace Token

variable {t t' : Token} (h : t.mark = t'.mark)
include h

theorem kind_eq_of_mark : t.kind = t'.kind := congrArg Prod.fst h

theorem lexeme_eq_of_mark : t.lexeme = t'.lexeme := congrArg Prod.snd h

theorem name_eq_of_mark : t.name = t'.name := by
  unfold name
  rw [lexeme_eq_of_mark h]

end Token

private theorem isWord_takeWhile {first : Char} {rest : List Char}
    (start : Text.isIdentStart first = true) :
    Text.IsWord (String.ofList ((first :: rest).takeWhile Text.isIdentContinue)) := by
  rw [List.takeWhile_cons, if_pos (Text.isIdentContinue_of_isIdentStart start)]
  exact ⟨first, rest.takeWhile Text.isIdentContinue, by simp, start, fun c hc =>
    List.mem_takeWhile_imp hc⟩

private theorem take_identifierLength (text : List Char) :
    text.take (Piece.identifierLength text) = text.takeWhile Text.isIdentContinue := by
  rw [Piece.identifierLength, Number.runLength]
  exact (List.prefix_iff_eq_take.1 (List.takeWhile_prefix _)).symm

/-- The name of a token at an identifier is a word. -/
theorem Piece.IsIdentifier.isWord_name {first : Char} {rest : List Char} {count : Nat}
    (h : IsIdentifier first rest count) (kind : TokenKind) (span : Span) :
    Text.IsWord (Token.mk kind (String.ofList ((first :: rest).take count)) span).name := by
  cases h with
  | plain start unmarked =>
      rw [take_identifierLength]
      have hcons : (first :: rest).takeWhile Text.isIdentContinue =
          first :: rest.takeWhile Text.isIdentContinue := by
        rw [List.takeWhile_cons, if_pos (Text.isIdentContinue_of_isIdentStart start)]
      have hname : (Token.mk kind (String.ofList ((first :: rest).takeWhile Text.isIdentContinue))
          span).name = String.ofList ((first :: rest).takeWhile Text.isIdentContinue) := by
        simp only [Token.name, String.toList_ofList, hcons]
        split
        · rename_i heq
          exact absurd (List.cons.inj heq).1 unmarked
        · rfl
      rw [hname]
      exact isWord_takeWhile start
  | marked mark start =>
      cases rest with
      | nil => simp at start
      | cons next rest =>
          subst mark
          rw [Nat.add_comm, List.take_succ_cons, take_identifierLength]
          have hname : (Token.mk kind
              (String.ofList ('@' :: (next :: rest).takeWhile Text.isIdentContinue)) span).name =
                String.ofList ((next :: rest).takeWhile Text.isIdentContinue) := by
            simp [Token.name]
          rw [hname]
          exact isWord_takeWhile (by simpa using start)

namespace TokenStream

/-- Blanks make no token. -/
theorem ofCursor_of_rest_nil {before : Cursor}
    (h : (before.skip (leadLength before.rest)).rest = []) :
    ofCursor before = ⟨[], [], (before.skip (leadLength before.rest)).position⟩ := by
  rw [ofCursor]
  dsimp only
  split
  · rfl
  · rename_i heq
    rw [h] at heq
    cases heq

/-- A text is read piece by piece. -/
theorem ofCursor_of_rest_cons {before : Cursor} {first : Char} {rest : List Char}
    (h : (before.skip (leadLength before.rest)).rest = first :: rest) :
    let c := before.skip (leadLength before.rest)
    let piece := Piece.ofText c.lineIsBlank first rest
    let later := ofCursor (c.skip piece.count)
    ofCursor before =
      ⟨(piece.kind?.map (tokenAt c piece.count)).toList ++ later.tokens,
        piece.faults.map (errorAt c) ++ later.errors, later.stop⟩ := by
  intro c piece later
  rw [ofCursor]
  dsimp only
  split
  · rename_i heq
    rw [h] at heq
    cases heq
  · rename_i heq
    rw [h] at heq
    cases heq
    rfl

/-- What holds of each token where it is read holds of all tokens. -/
theorem forall_tokens {P : Token → Prop}
    (h : ∀ (c : Cursor) (first : Char) (rest : List Char) (kind : TokenKind), c.rest = first :: rest →
      (Piece.ofText c.lineIsBlank first rest).kind? = some kind →
      P (tokenAt c (Piece.ofText c.lineIsBlank first rest).count kind)) (before : Cursor) :
    ∀ t ∈ (ofCursor before).tokens, P t := by
  induction before using ofCursor.induct with
  | case1 before c hrest =>
      intro t ht
      rw [ofCursor_of_rest_nil hrest] at ht
      cases ht
  | case2 before c first rest hrest piece ih =>
      intro t ht
      rw [ofCursor_of_rest_cons hrest] at ht
      rcases List.mem_append.1 ht with hfirst | hlater
      · obtain ⟨kind, hpiece, rfl⟩ := Option.map_eq_some_iff.1 (Option.mem_toList.1 hfirst)
        exact h _ first rest kind hrest hpiece
      · exact ih t hlater

private theorem isWord_name (before : Cursor) :
    ∀ t ∈ (ofCursor before).tokens, t.kind = .identifier → Text.IsWord t.name := by
  refine forall_tokens (fun c first rest kind hrest hpiece hkind => ?_) before
  obtain rfl : kind = .identifier := hkind
  have hword := (Piece.kind?_ofText_identifier hpiece).isWord_name .identifier
    (c.spanOf (Piece.ofText c.lineIsBlank first rest).count)
  rw [tokenAt, hrest]
  exact hword

private theorem lexeme_mem_predefinedTypes (before : Cursor) :
    ∀ t ∈ (ofCursor before).tokens, t.kind = .predefinedType → t.lexeme ∈ Keyword.predefinedTypes := by
  refine forall_tokens (fun c first rest kind hrest hpiece hkind => ?_) before
  obtain rfl : kind = .predefinedType := hkind
  have hword := Piece.ofText_predefinedType hpiece
  rw [hword] at hpiece ⊢
  refine Keyword.mem_predefinedTypes ?_
  rw [tokenAt, hrest]
  -- an identifier is of another class
  have hkind := Option.some.inj hpiece
  change (Keyword.kind? _).getD _ = _ at hkind
  cases hreserved : Keyword.kind?
    (String.ofList ((first :: rest).take (Piece.identifierLength (first :: rest)))) with
  | none =>
      rw [hreserved] at hkind
      cases hkind
  | some other =>
      rw [hreserved] at hkind
      exact hreserved.trans (congrArg some hkind)

end TokenStream

/-- The names of the identifier tokens of a source are words. -/
theorem Token.isWord_name {source : String} {t : Token}
    (mem : t ∈ (TokenStream.ofText source).tokens) (kind : t.kind = .identifier) :
    Text.IsWord t.name :=
  TokenStream.isWord_name _ t mem kind

/-- The texts of the tokens of a source that are built-in types are their names. -/
theorem Token.lexeme_mem_predefinedTypes {source : String} {t : Token}
    (mem : t ∈ (TokenStream.ofText source).tokens) (kind : t.kind = .predefinedType) :
    t.lexeme ∈ Keyword.predefinedTypes :=
  TokenStream.lexeme_mem_predefinedTypes _ t mem kind

end Graft
