/-
Module: Graft.Proofs.Token.Spells
Purpose: Texts that are put together from words and marks, and the tokens that they spell.
Main exports: TokenStream.Spells, TokenStream.Spells.append, TokenStream.spells_word,
  TokenStream.ofText_of_spells
-/
import Graft.Proofs.Token.Reads

namespace Graft

open Text (Stops Seam)

/-! ### Blanks and words -/

namespace Text

/-- The code points of the blanks beyond ASCII. -/
def wideBlanks : List Nat :=
  [0x85, 0xA0, 0x1680, 0x2000, 0x2001, 0x2002, 0x2003, 0x2004, 0x2005, 0x2006, 0x2007, 0x2008, 0x2009,
    0x200A, 0x2028, 0x2029, 0x202F, 0x205F, 0x3000]

theorem mem_wideBlanks {c : Char} (h : inRanges blankRanges c = true) : c.toNat ∈ wideBlanks := by
  simp only [inRanges, ← Array.any_toList, blankRanges, List.any_cons, List.any_nil, Bool.or_false,
    Bool.or_eq_true, Bool.and_eq_true, decide_eq_true_eq] at h
  simp only [wideBlanks, List.mem_cons, List.not_mem_nil, or_false]
  omega

theorem not_letter_of_mem_wideBlanks : ∀ n ∈ wideBlanks,
    letterRanges.toList.any (fun range => range.1 ≤ n && n ≤ range.2) = false := by
  decide +kernel

/-- An ASCII character that starts an identifier is a Latin letter or an underscore. -/
theorem ascii_of_isIdentStart {c : Char} (hascii : c.val < 128) (h : isIdentStart c = true) :
    ((65 ≤ c.toNat ∧ c.toNat ≤ 90) ∨ (97 ≤ c.toNat ∧ c.toNat ≤ 122)) ∨ c = '_' := by
  unfold isIdentStart isLetter at h
  rw [if_pos hascii] at h
  change ((decide (c.val ≥ 65 ∧ c.val ≤ 90) ||
    (decide (c.val ≥ 97) && decide (c.val ≤ 122))) || decide (c = '_')) = true at h
  simp only [Bool.or_eq_true, decide_eq_true_eq, Bool.and_eq_true, UInt32.le_iff_toNat_le,
    ge_iff_le] at h
  exact h

/-- No blank starts an identifier. -/
theorem isBlank_of_isIdentStart {c : Char} (h : isIdentStart c = true) : isBlank c = false := by
  cases hblank : isBlank c with
  | false => rfl
  | true =>
      exfalso
      unfold isBlank at hblank
      by_cases hascii : c.val < 128
      · rw [if_pos hascii] at hblank
        simp only [Bool.or_eq_true, decide_eq_true_eq, Bool.and_eq_true,
          UInt32.le_iff_toNat_le] at hblank
        change c = ' ' ∨ 9 ≤ c.toNat ∧ c.toNat ≤ 13 at hblank
        rcases hblank with rfl | hblank
        · revert h
          decide
        · rcases ascii_of_isIdentStart hascii h with h | rfl
          · omega
          · revert hblank
            decide
      · rw [if_neg hascii] at hblank
        unfold isIdentStart isLetter at h
        rw [if_neg hascii] at h
        have hletter := not_letter_of_mem_wideBlanks _ (mem_wideBlanks hblank)
        rw [inRanges, ← Array.any_toList, hletter, Bool.false_or, decide_eq_true_eq] at h
        subst h
        exact hascii (by decide)

/-- No digit is a blank. -/
theorem isBlank_of_isDigit {c : Char} (h : c.isDigit = true) : isBlank c = false := by
  simp only [Char.isDigit, Bool.and_eq_true, decide_eq_true_eq, UInt32.le_iff_toNat_le, ge_iff_le] at h
  change 48 ≤ c.toNat ∧ c.toNat ≤ 57 at h
  have hascii : c.val < 128 := by
    rw [UInt32.lt_iff_toNat_lt]
    change c.toNat < 128
    omega
  refine Bool.eq_false_iff.2 fun hblank => ?_
  unfold isBlank at hblank
  rw [if_pos hascii] at hblank
  simp only [Bool.or_eq_true, decide_eq_true_eq, Bool.and_eq_true, UInt32.le_iff_toNat_le] at hblank
  change c = ' ' ∨ 9 ≤ c.toNat ∧ c.toNat ≤ 13 at hblank
  rcases hblank with rfl | hblank
  · revert h
    decide
  · omega

theorem not_numeral_of_mem_wideBlanks : ∀ n ∈ wideBlanks,
    numeralRanges.toList.any (fun range => range.1 ≤ n && n ≤ range.2) = false := by
  decide +kernel

/-- No identifier goes on with a blank. -/
theorem isBlank_of_isIdentContinue {c : Char} (h : isIdentContinue c = true) : isBlank c = false := by
  by_cases hstart : isIdentStart c = true
  · exact isBlank_of_isIdentStart hstart
  have hnumeral : isNumeral c = true := by
    simp only [isIdentContinue, isIdentStart, Bool.or_eq_true, not_or] at h hstart
    exact (h.resolve_right hstart.2).resolve_left hstart.1
  unfold isNumeral at hnumeral
  split at hnumeral
  · exact isBlank_of_isDigit hnumeral
  · rename_i hwide
    refine Bool.eq_false_iff.2 fun hblank => ?_
    unfold isBlank at hblank
    rw [if_neg hwide] at hblank
    have hnone := not_numeral_of_mem_wideBlanks _ (mem_wideBlanks hblank)
    rw [inRanges, ← Array.any_toList, hnone] at hnumeral
    cases hnumeral

/-- No digit starts an identifier. -/
theorem isDigit_of_isIdentStart {c : Char} (h : isIdentStart c = true) : c.isDigit = false := by
  refine Bool.eq_false_iff.2 fun hdigit => ?_
  simp only [Char.isDigit, Bool.and_eq_true, decide_eq_true_eq, UInt32.le_iff_toNat_le, ge_iff_le] at hdigit
  change 48 ≤ c.toNat ∧ c.toNat ≤ 57 at hdigit
  have hascii : c.val < 128 := by
    rw [UInt32.lt_iff_toNat_lt]
    change c.toNat < 128
    omega
  rcases ascii_of_isIdentStart hascii h with h | rfl
  · omega
  · revert hdigit
    decide

end Text

namespace Piece

/-- An identifier or a reserved word starts a text. -/
theorem ofText_word {b : Bool} {first : Char} {rest : List Char} (h : Text.isIdentStart first = true) :
    ofText b first rest = word (first :: rest) := by
  have hne : ∀ c, Text.isIdentStart c = false → first ≠ c := by
    rintro c hc rfl
    rw [hc] at h
    cases h
  have hdigit := Text.isDigit_of_isIdentStart h
  have hstarts : Number.starts (first :: rest) = false := by
    simp [Number.starts, hdigit, hne '.' (by decide)]
  unfold ofText scan
  simp [List.isPrefixOf, hne '#' (by decide), hne '"' (by decide),
    hne '\'' (by decide), hne '@' (by decide), hne '$' (by decide), hstarts, h,
    (hne '/' (by decide)).symm]

end Piece

namespace TokenStream

/-! ### Texts that are read wherever they stand -/

/-- Wherever `a` stands before `v` in the text `W`, it is read, and its tokens satisfy `R`. -/
def Spells (W a v : List Char) (R : List Token → Prop) : Prop :=
  ∀ n, ((Cursor.ofText W).skip n).rest = a ++ v →
    ∃ toks, Reads ((Cursor.ofText W).skip n) ((Cursor.ofText W).skip (n + a.length)) toks ∧ R toks

/-- The tokens are these, wherever they stand. -/
def Marked (marks : List (TokenKind × String)) (toks : List Token) : Prop := toks.map Token.mark = marks

theorem Marked.append {marks marks' : List (TokenKind × String)} {toks toks' : List Token}
    (h : Marked marks toks) (h' : Marked marks' toks') : Marked (marks ++ marks') (toks ++ toks') := by
  unfold Marked at *
  rw [List.map_append, h, h']

namespace Spells

variable {W a b v : List Char} {R S T : List Token → Prop}

theorem mono (h : Spells W a v R) (hR : ∀ toks, R toks → S toks) : Spells W a v S := by
  intro n hn
  obtain ⟨toks, hreads, hR'⟩ := h n hn
  exact ⟨toks, hreads, hR toks hR'⟩

/-- One text after another. -/
theorem append (h : Spells W a (b ++ v) R) (h' : Spells W b v S) (hT : ∀ t u, R t → S u → T (t ++ u)) :
    Spells W (a ++ b) v T := by
  intro n hn
  rw [List.append_assoc] at hn
  obtain ⟨t, hreads, hR⟩ := h n hn
  have hrest : ((Cursor.ofText W).skip (n + a.length)).rest = b ++ v := by
    rw [Cursor.skip_add]
    exact Cursor.rest_skip_length hn
  obtain ⟨u, hreads', hS⟩ := h' (n + a.length) hrest
  rw [Nat.add_assoc, ← List.length_append] at hreads'
  exact ⟨t ++ u, hreads.trans hreads', hT t u hR hS⟩

/-- The tokens of one text behind those of another. -/
theorem both (h : Spells W a (b ++ v) R) (h' : Spells W b v S) :
    Spells W (a ++ b) v fun toks => ∃ t u, toks = t ++ u ∧ R t ∧ S u :=
  h.append h' fun t u ht hu => ⟨t, u, rfl, ht, hu⟩

theorem nil (hR : R []) : Spells W [] v R := fun _ _ => ⟨[], .done _, hR⟩

/-- Texts with known tokens one after another. -/
theorem marked {m n : List (TokenKind × String)} (h : Spells W a (b ++ v) (Marked m))
    (h' : Spells W b v (Marked n)) : Spells W (a ++ b) v (Marked (m ++ n)) :=
  h.append h' fun _ _ => Marked.append

end Spells

variable {W a b v : List Char}

/-- A text that is spelled as a whole has its tokens, and no errors. -/
theorem ofText_of_spells {text : String} {R : List Token → Prop} (h : Spells text.toList text.toList [] R) :
    ∃ toks stop, ofText text = ⟨toks, [], stop⟩ ∧ R toks := by
  obtain ⟨toks, hreads, hR⟩ := h 0 (List.append_nil _).symm
  rw [Cursor.skip] at hreads
  generalize hc : (Cursor.ofText text.toList).skip (0 + text.toList.length) = c at hreads
  have hend : c.rest = [] := by
    rw [← hc, Cursor.rest_skip, Nat.zero_add]
    exact List.drop_length (l := text.toList)
  have hdone : ofCursor c = ⟨[], [], (c.skip (leadLength c.rest)).position⟩ :=
    ofCursor_of_rest_nil (by rw [Cursor.skip_of_rest_nil hend]; exact hend)
  have hstream := ofCursor_of_reads hreads
  rw [hdone, List.append_nil] at hstream
  exact ⟨toks, _, hstream, hR⟩

/-- A blank spells nothing. -/
theorem spells_lead {x : Char} (lead : isLead x = true) (next : v.head? ≠ some '\ufeff') :
    Spells W [x] v (Marked []) := by
  intro n hn
  rw [Cursor.skip_add]
  exact ⟨[], .lead hn lead next (.done _), rfl⟩

/-- A piece without faults that is a text wherever it stands. -/
theorem spells_piece (first : Char) (rest : List Char) (kind? : Option TokenKind)
    (plain : isLead first = false)
    (piece : ∀ b, Piece.ofText b first (rest ++ v) = ⟨rest.length + 1, kind?, []⟩) :
    Spells W (first :: rest) v
      (Marked ((kind?.map (·, String.ofList (first :: rest))).toList)) := by
  intro n hn
  have hpiece := (pieceAt_of_rest hn).trans (piece _)
  have hsound : Sound ((Cursor.ofText W).skip n) := ⟨⟨first, _, hn, plain⟩, by rw [hpiece]⟩
  have hreads : Reads ((Cursor.ofText W).skip n) ((Cursor.ofText W).skip (n + (rest.length + 1)))
      (tokensAt ((Cursor.ofText W).skip n)) := by
    have hreads := Reads.piece hsound (.done _)
    rw [List.append_nil, hpiece, ← Cursor.skip_add] at hreads
    exact hreads
  refine ⟨_, hreads, ?_⟩
  have htake : ((Cursor.ofText W).skip n).rest.take (rest.length + 1) = first :: rest := by
    rw [hn, List.cons_append, List.take_succ_cons, List.take_left]
  unfold Marked tokensAt
  rw [hpiece]
  cases kind? with
  | none => rfl
  | some kind =>
      simp only [Option.map_some, Option.toList_some, List.map_cons, List.map_nil, Token.mark, tokenAt,
        htake]

/-- A word spells itself if it does not run on. -/
theorem spells_word {w : String} (word : Text.IsWord w)
    (stop : v.head?.any Text.isIdentContinue = false) :
    Spells W w.toList v (Marked [((Keyword.kind? w).getD .identifier, w)]) := by
  obtain ⟨first, rest, hw, hfirst, hrest⟩ := word
  have hplain : isLead first = false := by
    rw [isLead, Text.isBlank_of_isIdentStart hfirst, Bool.false_or, decide_eq_false_iff_not]
    rintro rfl
    rw [Text.isIdentStart_mark] at hfirst
    cases hfirst
  have hrun : Piece.identifierLength (first :: (rest ++ v)) = rest.length + 1 := by
    have hall : ∀ c ∈ first :: rest, Text.isIdentContinue c = true := by
      intro c hc
      rcases List.mem_cons.1 hc with rfl | hc
      · exact Text.isIdentContinue_of_isIdentStart hfirst
      · exact hrest c hc
    have hv : v.takeWhile Text.isIdentContinue = [] := by
      cases v with
      | nil => rfl
      | cons c more =>
          have hc : Text.isIdentContinue c = false := stop
          rw [List.takeWhile_cons, if_neg (by simp [hc])]
    rw [← List.cons_append, Piece.identifierLength, Number.runLength,
      List.takeWhile_append_of_pos hall, hv, List.append_nil, List.length_cons]
  have hname : String.ofList (first :: rest) = w := by rw [← hw, String.ofList_toList]
  have hspells := spells_piece (W := W) (v := v) first rest
    (some ((Keyword.kind? w).getD .identifier)) hplain fun b => by
      rw [Piece.ofText_word hfirst, Piece.word, hrun, ← List.cons_append]
      have htake : ((first :: rest) ++ v).take (first :: rest).length = first :: rest := List.take_left
      rw [List.length_cons] at htake
      rw [htake, hname]
      rfl
  rw [hname] at hspells
  rw [hw]
  exact hspells

/-- A bracket, a comma or a semicolon spells itself. -/
theorem spells_mark {x : Char} {kind : TokenKind}
    (hx : (x, kind) ∈ [('{', TokenKind.leftBrace), ('}', .rightBrace), ('(', .leftParen), (')', .rightParen),
      ('[', .leftBracket), (']', .rightBracket), (';', .semicolon), (',', .comma), ('>', .greater)]) :
    Spells W [x] v (Marked [(kind, String.singleton x)]) := by
  have hspells := fun plain piece =>
    spells_piece (W := W) (v := v) x [] (some kind) plain piece
  simp only [List.mem_cons, Prod.mk.injEq, List.not_mem_nil, or_false] at hx
  rcases hx with ⟨rfl, rfl⟩ | ⟨rfl, rfl⟩ | ⟨rfl, rfl⟩ | ⟨rfl, rfl⟩ | ⟨rfl, rfl⟩ | ⟨rfl, rfl⟩ | ⟨rfl, rfl⟩ |
      ⟨rfl, rfl⟩ | ⟨rfl, rfl⟩ <;>
    exact hspells (by decide) fun _ => rfl

/-- An operator that no longer one starts with spells itself. -/
theorem spells_operator {first : Char} {rest : List Char} {kind : TokenKind}
    (hfirst : first ∈ ['.', ':', '?', '<', '*']) (number : Number.starts (first :: (rest ++ v)) = false)
    (longest : Operator.match? (first :: (rest ++ v)) = some (first :: rest, kind)) :
    Spells W (first :: rest) v (Marked [(kind, String.ofList (first :: rest))]) := by
  simp only [List.mem_cons, List.not_mem_nil, or_false] at hfirst
  have hplain : isLead first = false ∧ Text.isIdentStart first = false := by
    rcases hfirst with rfl | rfl | rfl | rfl | rfl <;> decide
  refine spells_piece first rest (some kind) hplain.1 fun b => ?_
  have hscan : Piece.ofText b first (rest ++ v) = Piece.scan first (rest ++ v) := by
    rcases hfirst with rfl | rfl | rfl | rfl | rfl <;> simp [Piece.ofText, List.isPrefixOf]
  have hmarks : first ≠ '"' ∧ first ≠ '\'' ∧ first ≠ '@' ∧ first ≠ '$' := by
    rcases hfirst with rfl | rfl | rfl | rfl | rfl <;> decide
  rw [hscan, Piece.scan]
  simp only [hmarks, if_false, decide_false, Bool.or_false, Bool.false_eq_true, number, hplain.2, longest]
  rfl

/-- A point spells itself unless a digit follows. -/
theorem spells_dot (stop : v.head?.any Char.isDigit = false) :
    Spells W ['.'] v (Marked [(.dot, ".")]) := by
  have hdigit : ('.').isDigit = false := by decide
  exact spells_operator (by simp) (by simp [Number.starts, hdigit, stop]) rfl

/-- Two colons spell themselves. -/
theorem spells_colons : Spells W [':', ':'] v (Marked [(.doubleColon, "::")]) :=
  spells_operator (by simp) rfl rfl

/-- An opening angle bracket spells itself unless a longer operator starts with it. -/
theorem spells_less (stop : v.head? ≠ some '<' ∧ v.head? ≠ some '=') :
    Spells W ['<'] v (Marked [(.less, "<")]) := by
  refine spells_operator (by simp) rfl ?_
  cases v with
  | nil => rfl
  | cons c rest =>
      have hc : '<' ≠ c ∧ '=' ≠ c := by simpa [eq_comm] using stop
      simp [Operator.match?, Operator.table, Operator.triples, Operator.pairs, Operator.singles,
        List.isPrefixOf, hc]

/-- A question mark spells itself unless another one follows. -/
theorem spells_question (stop : v.head? ≠ some '?') : Spells W ['?'] v (Marked [(.question, "?")]) := by
  refine spells_operator (by simp) rfl ?_
  cases v with
  | nil => rfl
  | cons c rest =>
      have hc : '?' ≠ c := by simpa [eq_comm] using stop
      simp [Operator.match?, Operator.table, Operator.triples, Operator.pairs, Operator.singles,
        List.isPrefixOf, hc]

/-- A star spells itself unless an equals sign follows. -/
theorem spells_star (stop : v.head? ≠ some '=') : Spells W ['*'] v (Marked [(.star, "*")]) := by
  refine spells_operator (by simp) rfl ?_
  cases v with
  | nil => rfl
  | cons c rest =>
      have hc : '=' ≠ c := by simpa [eq_comm] using stop
      simp [Operator.match?, Operator.table, Operator.triples, Operator.pairs, Operator.singles,
        List.isPrefixOf, hc]

end TokenStream

end Graft
