/-
Module: Graft.Proofs.Parser.Suffixes
Purpose: What the suffix that asks for UTF-8 changes behind a string.
Main exports: Piece.string_suffixed, TokenStream.single, TokenStream.suffixed_exact

The suffix is read in one place for all strings, and each way to decode a string has to take it off again
before it looks at the quotes.  The one for strings with holes does not, and finds no text then.
-/
import Graft.Proofs.Literal.Delimiters
import Graft.Proofs.Parser.StringLiterals
import Graft.Proofs.Token.Literals

namespace Graft

open Graft.Parser (literalValue?)

theorem TokenKind.isLiteral_of_isString {kind : TokenKind} (h : kind.isString = true) :
    kind.isLiteral = true := by
  cases kind <;> first | rfl | cases h

namespace Piece

variable {b : Bool} {marks : Literal.Marks} {x suffix : List Char} {first : Char} {rest : List Char}
  {kind : TokenKind}

/-- A quote behind marks starts a string. -/
theorem ofText_string (read : Literal.readMarks ⟨0, false, false⟩ (first :: rest) = marks)
    (quote : ((first :: rest).drop marks.count).head? = some '"') :
    ofText b first rest = string marks (first :: rest) := by
  rcases Literal.first_of_readMarks read quote with rfl | ⟨hfirst, c, hc, hmark⟩
  · have hnone : marks = ⟨0, false, false⟩ := read.symm
    rw [hnone]
    rfl
  · have hname : rest.head?.any Text.isIdentStart = false := by
      rw [hc]
      rcases hmark with rfl | rfl | rfl <;> decide
    have hmarked : ofText b first rest = marked first rest := by
      rcases hfirst with rfl | rfl <;> rfl
    rw [hmarked, marked, hname, Bool.and_false, if_neg Bool.false_ne_true, read]
    exact if_pos quote

/-- A string without a suffix may be followed by one. -/
theorem string_suffixed (piece : string marks x = ⟨x.length, some kind, []⟩)
    (plain : ∀ s ∈ Literal.suffixes, ¬s <:+ x) (hsuffix : suffix ∈ Literal.suffixes) :
    string marks (x ++ suffix) = ⟨(x ++ suffix).length, some kind, []⟩ := by
  have hquote : suffix.head? ≠ some '"' := by
    have hall : ∀ suffix ∈ Literal.suffixes, suffix.head? ≠ some '"' := by decide
    exact hall suffix hsuffix
  unfold string at piece ⊢
  dsimp only at piece ⊢
  generalize hextent : Literal.reach [.fresh (Literal.opened marks.verbatim marks.holes
    (x.drop (marks.count + 1)))] (marks.count + 1) (x.drop (marks.count + 1)) = extent at piece
  have hclosed : extent.closed = true := by
    by_contra hopen
    rw [if_neg hopen] at piece
    cases congrArg Piece.kind? piece
  rw [if_pos hclosed] at piece
  obtain ⟨hcount, hkind, hcuts⟩ := Piece.mk.inj piece
  -- what follows the closing quote could only be a suffix
  have hreached : extent.count = x.length := by
    rcases Literal.suffixLength_cases (x.drop extent.count) with hnone | ⟨htwo, s, hs, more, hmore⟩
    · rwa [hnone, Nat.add_zero] at hcount
    · exfalso
      rw [htwo] at hcount
      have hall : ∀ s ∈ Literal.suffixes, s.length = 2 := by decide
      have hlength := congrArg List.length hmore
      rw [List.length_append, hall s hs, List.length_drop] at hlength
      obtain rfl : more = [] := List.length_eq_zero_iff.1 (by omega)
      rw [List.append_nil] at hmore
      exact plain s hs ⟨x.take extent.count, by rw [hmore, List.take_append_drop]⟩
  have hmore := Literal.add_length_le_reach _ _ _ (hextent ▸ hclosed)
  rw [hextent] at hmore
  simp only [List.length_cons, List.length_nil] at hmore
  have hdrop : (x ++ suffix).drop (marks.count + 1) = x.drop (marks.count + 1) ++ suffix :=
    List.drop_append_of_le_length (by omega)
  have hlength : (x.drop (marks.count + 1)).length = x.length - (marks.count + 1) := List.length_drop
  have hself : x.drop (marks.count + 1) ++ [] = x.drop (marks.count + 1) := List.append_nil _
  rw [← hself] at hextent
  have hopened := Literal.opened_append_of_closed hquote (hextent ▸ hclosed)
    (by rw [← Literal.Level.fresh, hextent]; omega)
  have hreach := Literal.reach_append hquote (hextent ▸ hclosed) (by rw [hextent]; omega)
  rw [hdrop, hopened, hreach, hextent, if_pos hclosed, hself, hreached, List.drop_left, hcuts]
  have htwo : ∀ s ∈ Literal.suffixes, Literal.suffixLength s = 2 ∧ s.length = 2 := by decide
  rw [(htwo suffix hsuffix).1, List.length_append, (htwo suffix hsuffix).2]
  exact congrArg (fun kind? => Piece.mk (x.length + 2) kind? []) hkind

end Piece

namespace TokenStream

/-- A source that is read as one token without an error is a piece of that class. -/
theorem piece_of_single {x : List Char} {t : Token} (clean : (ofText (.ofList x)).errors = [])
    (tokens : (ofText (.ofList x)).tokens = [t]) (whole : t.lexeme = .ofList x) :
    ∃ first rest, x = first :: rest ∧ isLead first = false ∧
      Piece.ofText true first rest = ⟨x.length, some t.kind, []⟩ := by
  rw [ofText, String.toList_ofList] at clean tokens
  obtain ⟨d, hreads, sound, htokens, -⟩ := reads_of_tokens clean (show _ = [] ++ t :: [] from tokens)
  obtain ⟨a, hsplit, rfl⟩ := hreads.skip
  obtain ⟨⟨first, rest, hrest, plain⟩, hfaults⟩ := sound
  have hx : x = a ++ first :: rest := by rw [← hrest]; exact hsplit
  rw [pieceAt_of_rest hrest] at hfaults
  have hle := Piece.ofText_le hfaults
  unfold tokensAt at htokens
  rw [pieceAt_of_rest hrest] at htokens
  cases hkind : (Piece.ofText ((Cursor.ofText x).skip a.length).lineIsBlank first rest).kind? with
  | none =>
      rw [hkind] at htokens
      cases htokens
  | some kind =>
      rw [hkind] at htokens
      obtain rfl := (List.cons.inj htokens).1
      have htake := String.ofList_injective whole
      rw [hrest] at htake
      -- nothing is left for what would stand before the token
      have hlength := congrArg List.length (htake.trans hx)
      rw [List.length_take, List.length_append, List.length_cons] at hlength
      obtain rfl : a = [] := List.length_eq_zero_iff.1 (by omega)
      refine ⟨first, rest, hx, plain, ?_⟩
      replace hkind : (Piece.ofText true first rest).kind? = some kind := hkind
      replace hfaults : (Piece.ofText true first rest).faults = [] := hfaults
      replace hle : (Piece.ofText true first rest).count ≤ rest.length + 1 := hle
      replace htake : (first :: rest).take (Piece.ofText true first rest).count = x := htake
      have hcount : (Piece.ofText true first rest).count = x.length := by
        rw [← htake, List.length_take, List.length_cons]
        omega
      exact Piece.mk.injEq .. ▸ ⟨hcount, hkind, hfaults⟩

/-- The stream of a source that is a single token. -/
def single (kind : TokenKind) (source : List Char) : TokenStream :=
  ⟨[⟨kind, .ofList source, .between .start (Position.start.after source)⟩], [], Position.start.after source⟩

variable {first : Char} {rest suffix : List Char} {kind : TokenKind}

/-- A string is still read as one with a suffix behind it. -/
theorem ofText_suffixed (piece : Piece.ofText true first rest = ⟨rest.length + 1, some kind, []⟩)
    (lead : isLead first = false) (string : kind.isString = true)
    (plain : ∀ s ∈ Literal.suffixes, ¬s <:+ first :: rest) (hsuffix : suffix ∈ Literal.suffixes) :
    ofText (.ofList (first :: rest ++ suffix)) = single kind (first :: rest ++ suffix) := by
  have hkind : (Piece.ofText true first rest).kind? = some kind := congrArg Piece.kind? piece
  have hliteral := Piece.isLiteral_of_kind? hkind (TokenKind.isLiteral_of_isString string)
  generalize hread : Piece.ofText true first rest = read at piece hliteral hkind
  cases hliteral with
  | char quote =>
      rw [Piece.kind_of_kind?_char hkind] at string
      cases string
  | number start =>
      obtain rfl := Option.some.inj hkind
      split at string <;> cases string
  | @string marks hmarks quote =>
      have hlt : marks.count < (first :: rest).length :=
        Number.lt_length_of_head?_drop (p := (· = '"')) (by rw [quote]; rfl)
      have hmarks' : Literal.readMarks ⟨0, false, false⟩ (first :: (rest ++ suffix)) = marks := by
        have hfit : (Literal.readMarks ⟨0, false, false⟩ (first :: rest ++ [])).count <
            0 + (first :: rest).length := by
          rw [List.append_nil, hmarks, Nat.zero_add]
          exact hlt
        have hsame : Literal.readMarks ⟨0, false, false⟩ (first :: rest ++ suffix) =
            Literal.readMarks ⟨0, false, false⟩ (first :: rest ++ []) := Literal.readMarks_append hfit
        rw [List.append_nil, hmarks] at hsame
        exact hsame
      have hquote : ((first :: (rest ++ suffix)).drop marks.count).head? = some '"' := by
        rw [← List.cons_append, List.drop_append_of_le_length (Nat.le_of_lt hlt), List.head?_append, quote]
        rfl
      have hpiece : Piece.ofText true first (rest ++ suffix) = .token kind ((rest ++ suffix).length + 1) :=
        (Piece.ofText_string hmarks' hquote).trans (Piece.string_suffixed piece plain hsuffix)
      exact ofText_single lead hpiece

/-- What a string says does not depend on its suffix, unless it is one with holes: then it says nothing. -/
theorem toOption_literalValue?_suffixed {source : List Char} (hne : source ≠ [])
    (string : kind.isString = true) (plain : ∀ s ∈ Literal.suffixes, ¬s <:+ source)
    (hsuffix : suffix ∈ Literal.suffixes) (span : Span) :
    (literalValue? ⟨kind, .ofList (source ++ suffix), span⟩).toOption =
      if kind = .interpolatedString then some (some (.interpolated (some "")))
      else (literalValue? ⟨kind, .ofList source, span⟩).toOption := by
  have hsame := (Literal.withoutSuffix_append source hsuffix).trans
    (Literal.withoutSuffix_of_plain plain).symm
  unfold literalValue?
  dsimp only
  rw [String.toList_ofList, String.toList_ofList]
  cases kind with
  | stringLiteral =>
      have hregular : Literal.regular (source ++ suffix) = Literal.regular source := by
        unfold Literal.regular
        rw [hsame]
      dsimp only
      rw [if_neg nofun, hregular]
      cases Literal.regular source <;> rfl
  | verbatimString =>
      have hverbatim : Literal.verbatim (source ++ suffix) = Literal.verbatim source := by
        unfold Literal.verbatim
        rw [hsame]
      dsimp only
      rw [if_neg nofun, hverbatim]
  | interpolatedString =>
      dsimp only
      rw [if_pos rfl, Literal.interpolated_append source hsuffix]
      rfl
  | rawString =>
      have hraw : Literal.raw? (source ++ suffix) = Literal.raw? source := by
        unfold Literal.raw?
        rw [hsame]
      have hhead : (source ++ suffix).head? = source.head? := List.head?_append_of_ne_nil _ hne
      dsimp only
      rw [if_neg nofun, hraw, hhead]
  | _ => cases string

/-- A suffix behind a string belongs to its token.  What the string says stays the same, unless it is one
with holes: then it says nothing. -/
theorem suffixed_exact {source suffix : List Char} {t : Token}
    (clean : (ofText (.ofList source)).errors = []) (tokens : (ofText (.ofList source)).tokens = [t])
    (whole : t.lexeme = .ofList source) (string : t.kind.isString = true)
    (plain : ∀ s ∈ Literal.suffixes, ¬s <:+ source) (hsuffix : suffix ∈ Literal.suffixes) :
    ofText (.ofList (source ++ suffix)) = single t.kind (source ++ suffix) ∧
    ∀ span, (literalValue? ⟨t.kind, .ofList (source ++ suffix), span⟩).toOption =
      if t.kind = .interpolatedString then some (some (.interpolated (some "")))
      else (literalValue? ⟨t.kind, .ofList source, span⟩).toOption := by
  obtain ⟨first, rest, rfl, hlead, hpiece⟩ := piece_of_single clean tokens whole
  exact ⟨ofText_suffixed hpiece hlead string plain hsuffix, fun span =>
    toOption_literalValue?_suffixed (List.cons_ne_nil _ _) string plain hsuffix span⟩

/-- A regular string literal keeps its value when a suffix is put behind it. -/
theorem suffixed_exact_regular :
    ((ofText (.ofList "\"a\"".toList)).errors = [] ∧ (ofText (.ofList "\"a\"".toList)).tokens =
      [⟨.stringLiteral, .ofList "\"a\"".toList, ⟨0, 1, 1, 3⟩⟩] ∧ ∀ s ∈ Literal.suffixes,
        ¬s <:+ "\"a\"".toList) ∧
    ofText (.ofList "\"a\"U8".toList) = single .stringLiteral "\"a\"U8".toList ∧
    ∀ span, (literalValue? ⟨.stringLiteral, .ofList "\"a\"U8".toList, span⟩).toOption =
      (literalValue? ⟨.stringLiteral, .ofList "\"a\"".toList, span⟩).toOption := by
  have clean : (ofText (.ofList "\"a\"".toList)).errors = [] := by decide +kernel
  have tokens : (ofText (.ofList "\"a\"".toList)).tokens =
      [⟨.stringLiteral, .ofList "\"a\"".toList, ⟨0, 1, 1, 3⟩⟩] := by decide +kernel
  have plain : ∀ s ∈ Literal.suffixes, ¬s <:+ "\"a\"".toList := by decide
  have hsuffix : ['U', '8'] ∈ Literal.suffixes := by decide
  obtain ⟨htoken, hvalue⟩ := suffixed_exact clean tokens rfl rfl plain hsuffix
  exact ⟨⟨clean, tokens, plain⟩, htoken, hvalue⟩

/-- A string with holes is one token also with a suffix, but its text is lost. -/
theorem suffixed_inexact :
    ofText (.ofList "$\"a\"".toList) = single .interpolatedString "$\"a\"".toList ∧
    ofText (.ofList "$\"a\"u8".toList) = single .interpolatedString "$\"a\"u8".toList ∧
    ∀ span, literalValue? ⟨.interpolatedString, "$\"a\"", span⟩ = .ok (some (.interpolated (some "a"))) ∧
      literalValue? ⟨.interpolatedString, "$\"a\"u8", span⟩ = .ok (some (.interpolated (some ""))) := by
  have hfirst : ofText (.ofList "$\"a\"".toList) = single .interpolatedString "$\"a\"".toList := by
      decide +kernel
  have hsecond : ofText (.ofList "$\"a\"u8".toList) = single .interpolatedString "$\"a\"u8".toList := by
      decide +kernel
  have hbare : Literal.interpolated ['$', '"', 'a', '"'] = .ok (some ['a']) := by decide +kernel
  have hsuffixed : Literal.interpolated ['$', '"', 'a', '"', 'u', '8'] = .ok (some []) := by decide +kernel
  exact ⟨hfirst, hsecond, fun span =>
    ⟨Parser.literalValue?_interpolated hbare span, Parser.literalValue?_interpolated hsuffixed span⟩⟩

end TokenStream

end Graft
