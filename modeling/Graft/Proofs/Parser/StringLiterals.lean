/-
Module: Graft.Proofs.Parser.StringLiterals
Purpose: The sources that string literals are written as are single tokens with the values written.
Main exports: Literal.Alone, Literal.verbatim_alone_iff, Literal.escaped_alone, Literal.rawLines_alone

Where a literal ends is found by `Literal.reach`, and what it says is read from its token by functions that
do not know how the end was found.  That a source is one token with the value it was written with takes both
to agree.  They do, but for one case: two quotes behind the opening one make a raw string, also where a
string with `@` would start with a quote.
-/
import Graft.Proofs.Literal.Passes
import Graft.Proofs.Parser.Containment

namespace Graft

open Literal (Passes)
open Graft.Parser (literalValue?)

/-! ### A source with one token -/

namespace TokenStream

/-- What starts with no blank starts with a piece. -/
theorem ofCursor_of_plain {c : Cursor} {first : Char} {rest : List Char} (hcons : c.rest = first :: rest)
    (plain : isLead first = false) :
    ofCursor c = ⟨tokensAt c ++ (ofCursor (c.skip (pieceAt c).count)).tokens,
      (pieceAt c).faults.map (errorAt c) ++ (ofCursor (c.skip (pieceAt c).count)).errors,
      (ofCursor (c.skip (pieceAt c).count)).stop⟩ := by
  have hlead : c.skip (leadLength c.rest) = c := by
    rw [hcons, leadLength_of_plain plain]
    rfl
  have hpiece := pieceAt_of_rest hcons
  rw [ofCursor_of_rest_cons (hlead.symm ▸ hcons), hlead, ← hpiece]
  rfl

/-- A sound piece that covers a source is the only token of it. -/
theorem ofText_single {first : Char} {rest : List Char} {kind : TokenKind} (plain : isLead first = false)
    (piece : Piece.ofText true first rest = .token kind (rest.length + 1)) :
    ofText (.ofList (first :: rest)) =
      ⟨[⟨kind, .ofList (first :: rest), .between .start (Position.start.after (first :: rest))⟩], [],
        Position.start.after (first :: rest)⟩ := by
  have hpiece : pieceAt (.ofText (first :: rest)) = .token kind (rest.length + 1) :=
    (pieceAt_of_rest (c := .ofText (first :: rest)) rfl).trans piece
  have hsound : Sound (.ofText (first :: rest)) := ⟨⟨first, rest, rfl, plain⟩, by rw [hpiece]; rfl⟩
  have hposition : ((Cursor.ofText (first :: rest)).skip (rest.length + 1)).position =
      Position.start.after (first :: rest) := by
    rw [Cursor.position_skip]
    change Position.after .start ((first :: rest).take (first :: rest).length) = _
    rw [List.take_length]
  have hdone : ((Cursor.ofText (first :: rest)).skip (rest.length + 1)).rest = [] := by
    rw [Cursor.rest_skip]
    exact List.drop_length (l := first :: rest)
  have hlater : ofCursor ((Cursor.ofText (first :: rest)).skip (rest.length + 1)) =
      ⟨[], [], Position.start.after (first :: rest)⟩ := by
    rw [ofCursor_of_rest_nil (by rw [Cursor.skip_of_rest_nil hdone]; exact hdone),
      Cursor.skip_of_rest_nil hdone, hposition]
  have htoken : tokensAt (.ofText (first :: rest)) =
      [⟨kind, .ofList (first :: rest), .between .start (Position.start.after (first :: rest))⟩] := by
    have htake : (Cursor.ofText (first :: rest)).rest.take (rest.length + 1) = first :: rest :=
      List.take_length (l := first :: rest)
    unfold tokensAt
    rw [hpiece, ← hposition]
    change [tokenAt _ (rest.length + 1) kind] = _
    unfold tokenAt
    rw [htake]
    rfl
  rw [ofText, String.toList_ofList, ofCursor_of_sound hsound, hpiece]
  change TokenStream.mk
    (tokensAt _ ++ (ofCursor ((Cursor.ofText (first :: rest)).skip (rest.length + 1))).tokens)
    (ofCursor ((Cursor.ofText (first :: rest)).skip (rest.length + 1))).errors
    (ofCursor ((Cursor.ofText (first :: rest)).skip (rest.length + 1))).stop = _
  rw [hlater, htoken, List.append_nil]

end TokenStream

namespace Parser

variable {s : ParserState}

/-! What the tokens of strings say. -/

section

variable {text value : List Char}

theorem literalValue?_verbatim (text : List Char) (span : Span) :
    literalValue? ⟨.verbatimString, .ofList text, span⟩ =
      .ok (some (.string (.ofList (Literal.verbatim text)))) := by
  unfold literalValue?
  dsimp only
  rw [String.toList_ofList]

theorem literalValue?_regular (h : Literal.regular text = .ok value) (span : Span) :
    literalValue? ⟨.stringLiteral, .ofList text, span⟩ = .ok (some (.string (.ofList value))) := by
  unfold literalValue?
  dsimp only
  rw [String.toList_ofList, h]
  rfl

theorem literalValue?_interpolated (h : Literal.interpolated text = .ok (some value)) (span : Span) :
    literalValue? ⟨.interpolatedString, .ofList text, span⟩ =
      .ok (some (.interpolated (some (.ofList value)))) := by
  unfold literalValue?
  dsimp only
  rw [String.toList_ofList, h]
  rfl

theorem literalValue?_raw (h : Literal.raw? text = some value) (plain : text.head? ≠ some '$')
    (span : Span) : literalValue? ⟨.rawString, .ofList text, span⟩ =
    .ok (some (.string (.ofList value))) := by
  unfold literalValue?
  dsimp only
  rw [String.toList_ofList, h]
  dsimp only
  rw [if_neg plain]

end

/-- A literal that an expression may end behind is the expression. -/
theorem expr_literal {terminators : List TokenKind} {value : LiteralValue}
    (hvalue : literalValue? s.current = .ok (some value)) (hend : (s.pass 1).current.kind ∈ terminators)
    (hplus : (s.pass 1).current.kind ≠ .plus) :
    expr terminators s = .ok (.literal value s.current.span) (s.pass 1) := by
  have hkind : s.current.kind ≠ .minus ∧ s.current.kind ≠ .leftParen ∧ s.current.kind ≠ .identifier := by
    refine ⟨?_, ?_, ?_⟩ <;> intro h <;>
    · unfold literalValue? at hvalue
      rw [h] at hvalue
      cases hvalue
  have hname : isNameOf s = false := by simp [isNameOf, ParserState.checkWord, hkind.2.2]
  have hliteral : literal s = .ok (.literal value s.current.span) (s.pass 1) := by
    refine (bind_eq (p := peek) rfl _).trans ?_
    rw [hvalue]
    rfl
  have hunary : ∀ inner, unary inner s = .ok (.literal value s.current.span) (s.pass 1) := by
    intro inner
    refine (bind_eq (many_eq_nil (eat?_eq_none (decide_eq_false hkind.1))) _).trans ?_
    refine (bind_eq (p := primary inner) (a := .literal value s.current.span) ?_ _).trans rfl
    refine (bind_eq (p := peek) rfl _).trans ?_
    rw [if_neg hkind.2.1]
    refine (bind_eq (p := get) rfl _).trans ?_
    rw [if_neg (by simp [hname]), if_neg hkind.2.2]
    exact hliteral
  have hadditive : additive s = .ok (.literal value s.current.span) (s.pass 1) :=
    (bind_eq (hunary _) _).trans <|
      (bind_eq (many_eq_nil (whenever_eat_eq_none (decide_eq_false hplus))) _).trans rfl
  have hattempt : attempt additive s = .ok (some (.literal value s.current.span)) (s.pass 1) := by
    change EStateM.tryCatch (some <$> additive) _ s = _
    unfold EStateM.tryCatch
    rw [map_eq hadditive]
  refine (bind_eq (p := get) rfl _).trans <| (bind_eq hattempt _).trans <|
    (bind_eq (p := peek) rfl _).trans ?_
  rw [if_pos hend]
  rfl

end Parser

namespace Literal

/-- A source is a single literal: one token of this class covers it, and nothing in it is unreadable.
Wherever such a token comes next and an expression may end behind it, it is read as a
literal with this value. -/
structure Alone (kind : TokenKind) (value : LiteralValue) (source : List Char) : Prop where
  tokens : TokenStream.ofText (.ofList source) =
    ⟨[⟨kind, .ofList source, .between .start (Position.start.after source)⟩], [],
    Position.start.after source⟩
  decoded : ∀ (s : ParserState) (terminators : List TokenKind), s.current.kind = kind →
    s.current.lexeme = .ofList source → (s.pass 1).current.kind ∈ terminators →
      (s.pass 1).current.kind ≠ .plus →
      Parser.expr terminators s = .ok (.literal value s.current.span) (s.pass 1)

namespace Alone

variable {kind : TokenKind} {value : LiteralValue} {source : List Char}

/-- A source that is a single literal is read as an expression up to its end. -/
theorem expr_ofText (h : Alone kind value source) (id : SourceId) {terminators : List TokenKind}
    (hend : .endOfFile ∈ terminators) : ∃ t, Parser.expr terminators (.ofText id (.ofList source)) =
      .ok (.literal value (.between .start (Position.start.after source))) t ∧ t.atEnd = true ∧
      t.errors = [] := by
  have hunread : (ParserState.ofText id (.ofList source)).unread =
      [⟨kind, .ofList source, .between .start (Position.start.after source)⟩] := by
    unfold ParserState.ofText
    rw [h.tokens]
  have hcurrent := Parser.current_of_unread hunread
  have hnext : ((ParserState.ofText id (.ofList source)).pass 1).unread = [] :=
    Parser.unread_pass_one hunread
  have hkind : ((ParserState.ofText id (.ofList source)).pass 1).current.kind = .endOfFile := by
    unfold ParserState.current ParserState.ahead
    rw [hnext]
    rfl
  have hexpr := h.decoded (.ofText id (.ofList source)) terminators (by rw [hcurrent]) (by rw [hcurrent])
    (by rwa [hkind]) (by rw [hkind]; decide)
  rw [hcurrent] at hexpr
  refine ⟨_, hexpr, by rw [ParserState.atEnd, hnext]; rfl, ?_⟩
  change (TokenStream.ofText (.ofList source)).errors.map ParseError.ofLexError = []
  rw [h.tokens]
  rfl

/-- A sound piece that covers a source and has a value is a literal. -/
theorem of_piece {first : Char} {rest : List Char} (plain : TokenStream.isLead first = false)
    (piece : Piece.ofText true first rest = .token kind (rest.length + 1))
    (hvalue : ∀ span, Parser.literalValue? ⟨kind, .ofList (first :: rest), span⟩ = .ok (some value)) :
    Alone kind value (first :: rest) where
  tokens := TokenStream.ofText_single plain piece
  decoded s terminators hkind hlexeme hend hplus := by
    refine Parser.expr_literal ?_ hend hplus
    have htoken : s.current = ⟨kind, .ofList (first :: rest), s.current.span⟩ := by rw [← hkind, ← hlexeme]
    rw [htoken]
    exact hvalue s.current.span

/-- A single literal starts with a sound piece of its class, if it starts with a token. -/
theorem first_piece {first : Char} {rest : List Char} (h : Alone kind value (first :: rest))
    (plain : TokenStream.isLead first = false) : (Piece.ofText true first rest).faults = [] ∧
      ∀ k ∈ (Piece.ofText true first rest).kind?, k = kind := by
  have hstream := TokenStream.ofCursor_of_plain (c := .ofText (first :: rest)) rfl plain
  have htokens := h.tokens
  rw [TokenStream.ofText, String.toList_ofList, hstream, TokenStream.mk.injEq] at htokens
  obtain ⟨htokens, herrors, -⟩ := htokens
  refine ⟨List.map_eq_nil_iff.1 (List.append_eq_nil_iff.1 herrors).1, fun k hk => ?_⟩
  have hfirst : TokenStream.tokensAt (.ofText (first :: rest)) =
      [TokenStream.tokenAt (.ofText (first :: rest)) (Piece.ofText true first rest).count k] := by
    unfold TokenStream.tokensAt
    rw [TokenStream.pieceAt_of_rest (c := .ofText (first :: rest)) rfl]
    change ((Piece.ofText true first rest).kind?.map _).toList = _
    rw [hk]
    rfl
  rw [hfirst] at htokens
  exact congrArg Token.kind (List.cons.inj htokens).1

end Alone

end Literal

/-! ### Pieces -/

namespace Piece

open Literal (between)

/-- What stands behind an opening quote opens no raw string if it does not start with a quote. -/
theorem opened_of_head? {body : List Char} (verbatim holes : Bool) (h : body.head? ≠ some '"') :
    Literal.opened verbatim holes (body ++ ['"']) = .text verbatim holes := by
  cases body with
  | nil => rfl
  | cons c rest =>
      have hc : '"' ≠ c := fun heq => h (congrArg some heq.symm)
      simp [Literal.opened, List.isPrefixOf, hc]

/-- A string whose body is passed and that nothing follows. -/
theorem string_between (marks : Literal.Marks) (before : List Char) {body : List Char}
    (hcount : before.length = marks.count) (head : body.head? ≠ some '"')
    (passed : Passes ['"'] (.text marks.verbatim marks.holes) (marks.count + 1) body
      (.text marks.verbatim marks.holes)) : string marks (before ++ between body) =
        token (stringKind marks.verbatim marks.holes) (before ++ between body).length := by
  have hdrop : (before ++ between body).drop (marks.count + 1) = body ++ ['"'] := by
    rw [← hcount, between, List.drop_append]
    simp
  have hlength : (before ++ between body).length = marks.count + 1 + body.length + 1 := by
    rw [List.length_append, hcount, between, List.length_cons, List.length_append, List.length_singleton]
    omega
  have hreach : Literal.reach [.fresh (.text marks.verbatim marks.holes)] (marks.count + 1) (body ++ ['"']) =
      ⟨(before ++ between body).length, true, []⟩ := by
    rw [Literal.Level.fresh, passed.reach_eq, Literal.reach_cons, hlength]
    simp [Literal.move, Literal.after]
  unfold string
  dsimp only
  rw [hdrop, opened_of_head? _ _ head, hreach]
  simp [token, Literal.suffixLength]

/-- What opens as a raw string is no other token. -/
theorem string_of_raw (marks : Literal.Marks) {text : List Char} {n : Nat}
    (h : Literal.opened marks.verbatim marks.holes (text.drop (marks.count + 1)) = .quotes n) :
    (string marks text).kind? = some .rawString ∨ (string marks text).faults ≠ [] := by
  unfold string
  dsimp only
  rw [h]
  split
  · exact .inl rfl
  · exact .inr (by simp)

/-- A raw string over several lines. -/
theorem string_writtenRaw {count : Nat} (three : 3 ≤ count) {indent : List Char} {lines : List (List Char)}
    (hindent : '"' ∉ indent) (hlines : ∀ line ∈ lines, Text.longestRun '"' line < count) :
    string ⟨0, false, false⟩ (Literal.writtenRaw count indent lines) =
      token .rawString (Literal.writtenRaw count indent lines).length := by
  obtain ⟨more, rfl⟩ := Nat.exists_eq_add_of_le' three
  have hopened : ∀ text, Literal.opened false false (List.replicate (more + 2) '"' ++ text) = .quotes 1 := by
    intro text
    rw [List.replicate_succ, List.replicate_succ]
    rfl
  have hpassed : Passes (List.replicate (more + 3) '"') (.quotes 1) 1 (List.replicate (more + 2) '"' ++
      '\n' :: (Literal.indented indent lines ++ indent)) (.raw (more + 3) 0) := by
    have hbody : ∀ count, Passes (List.replicate (more + 3) '"') (.raw (more + 3) 0) count
        (Literal.indented indent lines ++ indent) (.raw (more + 3) 0) := fun count =>
      (Literal.passes_lines hindent hlines count).append (Literal.passes_quoteless hindent _)
    have hfirst : ∀ count ahead, Literal.move (.quotes (1 + (more + 2))) count '\n' ahead =
        .pass 0 (.raw (more + 3) 0) := by
      intro count ahead
      simp [Literal.move, show 1 + (more + 2) = more + 3 by omega]
    exact (Literal.passes_opening (more + 2) 1 1).append (.step [] (hfirst _ _) (hbody _))
  have hreach : Literal.reach [.fresh (.quotes 1)] 1 (List.replicate (more + 2) '"' ++
      ('\n' :: (Literal.indented indent lines ++ indent) ++ List.replicate (more + 3) '"')) =
      ⟨(Literal.writtenRaw (more + 3) indent lines).length, true, []⟩ := by
    rw [← List.append_assoc, Literal.Level.fresh, hpassed.reach_eq,
      Literal.reach_closing (more + 2) 0 _ (by omega)]
    simp only [Literal.writtenRaw, List.length_append, List.length_replicate, List.length_cons]
    congr 1
    omega
  have hdrop : (Literal.writtenRaw (more + 3) indent lines).drop 1 = List.replicate (more + 2) '"' ++
      ('\n' :: (Literal.indented indent lines ++ indent) ++ List.replicate (more + 3) '"') := rfl
  unfold string
  dsimp only
  rw [hdrop, hopened, hreach]
  simp [token, Literal.suffixLength]

end Piece

/-! ### Literals -/

namespace Literal

/-- A string with `@` is a single literal unless its text starts with a quote.  The quote is written twice,
and behind the opening one this makes three. -/
theorem alone_iff_head? {first : Char} (more twice : List Char) {text : List Char} (holes : Bool)
    {value : LiteralValue} (plain : TokenStream.isLead first = false) (quote : '"' ∈ twice)
    (brace : holes = true → '{' ∈ twice) (hpiece : ∀ rest, Piece.ofText true first (more ++ '"' :: rest) =
      Piece.string ⟨more.length + 1, true, holes⟩ (first :: (more ++ '"' :: rest)))
    (hvalue : ∀ span, literalValue? ⟨Piece.stringKind true holes,
      .ofList (first :: (more ++ between (text.flatMap (doubled twice)))), span⟩ = .ok (some value)) :
    Alone (Piece.stringKind true holes) value (first :: (more ++ between (text.flatMap (doubled twice)))) ↔
      text.head? ≠ some '"' := by
  constructor
  · intro h hhead
    obtain ⟨rest, rfl⟩ := List.head?_eq_some_iff.1 hhead
    obtain ⟨hfaults, hkind⟩ := h.first_piece plain
    rw [between, hpiece] at hfaults hkind
    have hopened : opened true holes
        ((first :: (more ++ between (('"' :: rest).flatMap (doubled twice)))).drop
        (more.length + 1 + 1)) = .quotes 1 := by
      rw [List.flatMap_cons, doubled_of_mem quote]
      simp [between, opened]
    rcases Piece.string_of_raw ⟨more.length + 1, true, holes⟩ hopened with hraw | hfault
    · have hsame := hkind .rawString hraw
      cases holes <;> cases hsame
    · exact hfault hfaults
  · intro hhead
    have hbody : (text.flatMap (doubled twice)).head? ≠ some '"' := by
      cases text with
      | nil => simp
      | cons c rest =>
          intro heq
          refine hhead ?_
          rw [List.flatMap_cons] at heq
          by_cases hc : c ∈ twice
          · rwa [doubled_of_mem hc] at heq
          · rwa [doubled_of_not_mem hc] at heq
    refine .of_piece plain ?_ hvalue
    rw [between, hpiece]
    exact Piece.string_between ⟨more.length + 1, true, holes⟩ (first :: more) rfl hbody
      (Passes.flatMap (passes_doubled quote brace) text _)

/-- Strings with `@` are read back exactly if their text does not start with a quote. -/
theorem verbatim_alone_iff (text : List Char) :
    (Alone .verbatimString (.string (.ofList text)) (writtenVerbatim text) ↔ text.head? ≠ some '"') ∧
      ∀ marks ∈ [['$', '@'], ['@', '$']],
        (Alone .interpolatedString (.interpolated (some (.ofList text))) (writtenMarked marks text) ↔
          text.head? ≠ some '"') := by
  constructor
  · refine alone_iff_head? [] ['"'] false (by decide) (by decide) (by decide)
      (fun rest => rfl) fun span => ?_
    have hvalue := Parser.literalValue?_verbatim (writtenVerbatim text) span
    rwa [verbatim_written] at hvalue
  · have hvalue : ∀ marks ∈ [['$', '@'], ['@', '$']], ∀ span, literalValue? ⟨.interpolatedString,
        .ofList (writtenMarked marks text), span⟩ = .ok (some (.interpolated (some (.ofList text)))) := by
      intro marks hmarks span
      have hall : ∀ marks ∈ [['$', '@'], ['@', '$']], marks.all isMark = true ∧ '@' ∈ marks := by decide
      obtain ⟨hmark, hat⟩ := hall marks hmarks
      exact Parser.literalValue?_interpolated (interpolated_marked (List.all_eq_true.1 hmark) hat text) span
    have hiff : ∀ first second, TokenStream.isLead first = false →
        (∀ rest, Piece.ofText true first (second :: '"' :: rest) =
          Piece.string ⟨2, true, true⟩ (first :: second :: '"' :: rest)) →
          [first, second] ∈ [['$', '@'], ['@', '$']] →
        (Alone .interpolatedString (.interpolated (some (.ofList text)))
          (writtenMarked [first, second] text) ↔ text.head? ≠ some '"') := by
      intro first second plain hpiece hmarks
      have hform : writtenMarked [first, second] text =
          first :: ([second] ++ between (text.flatMap (doubled ['"', '{', '}']))) := rfl
      have hread := hvalue _ hmarks
      rw [hform] at hread ⊢
      exact alone_iff_head? [second] ['"', '{', '}'] true plain (by decide) (by decide) hpiece hread
    intro marks hmarks
    rcases List.mem_pair.1 hmarks with rfl | rfl
    · exact hiff '$' '@' (by decide) (fun rest => rfl) (by decide)
    · exact hiff '@' '$' (by decide) (fun rest => rfl) (by decide)

/-- The text `"a"` between the quotes of a string with `@` is read without an error, as a raw string whose
value includes the marks and all the quotes. -/
theorem verbatim_alone_quoted :
    Alone .rawString (.string "@\"\"\"a\"\"\"") (writtenVerbatim ['"', 'a', '"']) ∧
      ¬Alone .verbatimString (.string "\"a\"") (writtenVerbatim ['"', 'a', '"']) := by
  have hraw : Alone .rawString (.string (.ofList ['@', '"', '"', '"', 'a', '"', '"', '"']))
      (writtenVerbatim ['"', 'a', '"']) :=
    .of_piece (by decide) (by decide +kernel) (Parser.literalValue?_raw (by decide) (by decide))
  refine ⟨hraw, fun h => ?_⟩
  have hsame := congrArg (·.tokens.map Token.kind) (hraw.tokens.symm.trans h.tokens)
  exact absurd hsame (by decide)

/-- A quote would end a string without `@`. -/
theorem Passes.head?_ne {rest body : List Char} {holes : Bool} {count : Nat} {last : Inside}
    (h : Passes rest (.text false holes) count body last) : body.head? ≠ some '"' := by
  cases h with
  | done => simp
  | step taken first more =>
      intro hhead
      obtain rfl := Option.some.inj hhead
      cases first

/-- Strings without `@` are read back.  None of what is written opens a hole. -/
theorem escaped_alone (text : List Char) :
    Alone .stringLiteral (.string (.ofList text)) (writtenRegular text) ∧
      Alone .interpolatedString (.interpolated (some (.ofList text))) (writtenInterpolated text) ∧
      Passes ['"'] (.text false true) 2 ((text.flatMap backslashed).flatMap (doubled ['{', '}']))
        (.text false true) := by
  have hregular : Passes ['"'] (.text false false) 1 (text.flatMap backslashed) (.text false false) :=
    .flatMap passes_backslashed text 1
  have hinterpolated :
      Passes ['"'] (.text false true) 2 ((text.flatMap backslashed).flatMap (doubled ['{', '}']))
      (.text false true) := by
    rw [List.flatMap_assoc]
    exact .flatMap passes_backslashed_doubled text 2
  refine ⟨.of_piece (by decide) ?_ (Parser.literalValue?_regular (regular_written text)),
    .of_piece (by decide) ?_ (Parser.literalValue?_interpolated (interpolated_written text)), hinterpolated⟩
  · exact Piece.string_between ⟨0, false, false⟩ [] rfl hregular.head?_ne hregular
  · exact Piece.string_between ⟨1, false, true⟩ ['$'] rfl hinterpolated.head?_ne hinterpolated

/-- Raw strings over several lines are read back if their quotes are more than any line has in a row. -/
theorem rawLines_alone {count : Nat} {indent : List Char} {lines : List (List Char)} (three : 3 ≤ count)
    (hindent : ∀ c ∈ indent, Text.isBlank c = true ∧ c ≠ '\r' ∧ c ≠ '\n') (hne : lines ≠ [])
    (hlines : ∀ line ∈ lines, '\r' ∉ line ∧ '\n' ∉ line ∧ Text.longestRun '"' line < count) :
    Alone .rawString (.string (.ofList (['\n'].intercalate lines))) (writtenRaw count indent lines) := by
  have hquote : '"' ∉ indent := fun h => absurd (hindent _ h).1 (by decide)
  have hplain : '\n' ∉ indent ∧ '\r' ∉ indent :=
    ⟨fun h => (hindent _ h).2.2 rfl, fun h => (hindent _ h).2.1 rfl⟩
  have hpiece := Piece.string_writtenRaw three hquote fun line h => (hlines line h).2.2
  have hpositive : 0 < count := by omega
  have hvalue := raw?_written hpositive hne (fun line h => ⟨(hlines line h).2.1, (hlines line h).1⟩) hplain
  obtain ⟨less, rfl⟩ := Nat.exists_eq_add_of_le' three
  have hquoted : (writtenRaw (less + 3) indent lines).head? ≠ some '$' := by
      simp [writtenRaw, List.replicate_succ]
  exact .of_piece (by decide) hpiece (Parser.literalValue?_raw hvalue hquoted)

/-- An empty line and a line with a run of three quotes stand for themselves between four quotes each,
indented by a space and a tab. -/
theorem rawLines_alone_runOfThree :
    3 ≤ 4 ∧ (∀ c ∈ [' ', '\t'], Text.isBlank c = true ∧ c ≠ '\r' ∧ c ≠ '\n') ∧
      [[], [' ', '"', '"', '"', 'a']] ≠ [] ∧
      (∀ line ∈ [[], [' ', '"', '"', '"', 'a']], '\r' ∉ line ∧ '\n' ∉ line ∧ Text.longestRun '"' line < 4) ∧
      Alone .rawString (.string (.ofList (['\n'].intercalate [[], [' ', '"', '"', '"', 'a']])))
        (writtenRaw 4 [' ', '\t'] [[], [' ', '"', '"', '"', 'a']]) := by
  have hindent : ∀ c ∈ [' ', '\t'], Text.isBlank c = true ∧ c ≠ '\r' ∧ c ≠ '\n' := by
    intro c hc
    rcases List.mem_pair.1 hc with rfl | rfl <;> decide
  have hlines : ∀ line ∈ [[], [' ', '"', '"', '"', 'a']],
      '\r' ∉ line ∧ '\n' ∉ line ∧ Text.longestRun '"' line < 4 := by decide
  exact ⟨by decide, hindent, by decide, hlines, rawLines_alone (by decide) hindent (by decide) hlines⟩

end Literal

end Graft
