/-
Module: Graft.Proofs.Token.Excerpts
Purpose: The text from one token of a source to another one has the tokens between them.
Main exports: Piece.WordLike, TokenStream.not_identContinue_of_semicolon, TokenStream.Excerpt,
  TokenStream.exists_excerpt, TokenStream.Excerpt.ofText, TokenStream.Excerpt.eq_of_covers

What stands before the first token and behind the last one is cut off.  No token depends on what stands
before it, since `#` starts none.  A number may be cut off from more digits or letters, which is why
something has to be known of the end: that the last token is no number, or that a semicolon comes next.
-/
import Graft.Proofs.Token.Canonical
import Graft.Proofs.Token.Places

namespace Graft

open Text (Seam)

/-! ### What starts with a character of a word -/

/-- No identifier goes on with a byte order mark. -/
theorem Text.isIdentContinue_mark : isIdentContinue '\ufeff' = false := by
  have hnumeral : isNumeral '\ufeff' = false := by
    rw [isNumeral, inRanges, ← Array.any_toList]
    decide +kernel
  have hstart := isIdentStart_mark
  rw [isIdentStart, Bool.or_eq_false_iff] at hstart
  rw [isIdentContinue, hstart.1, hnumeral, hstart.2]
  rfl

namespace Piece

/-- A word, a number, or a character that no piece starts with. -/
inductive WordLike (first : Char) (rest : List Char) : Piece → Prop where
  | word : WordLike first rest (word (first :: rest))
  | number : WordLike first rest (token (if (Number.extent (first :: rest)).isReal then .realLiteral else
      .intLiteral) (Number.extent (first :: rest)).count)
  | broken : WordLike first rest (broken (.unexpectedChar first) 1)

/-- A piece that starts with a character that words go on with. -/
theorem wordLike_of_identContinue (b : Bool) {first : Char} (rest : List Char)
    (h : Text.isIdentContinue first = true) : WordLike first rest (ofText b first rest) := by
  by_cases hstart : Text.isIdentStart first = true
  · rw [ofText_word hstart]
    exact .word
  by_cases hnumber : Number.starts (first :: rest) = true
  · rw [ofText_number hnumber]
    exact .number
  have hne : ∀ c, Text.isIdentContinue c = false → first ≠ c := by
    rintro c hc rfl
    rw [hc] at h
    cases h
  -- no operator starts with such a character
  have hnone : Operator.match? (first :: rest) = none := by
    refine List.find?_eq_none.2 fun entry hentry => ?_
    have hall : ∀ entry ∈ Operator.table, entry.1.head?.any Text.isIdentContinue = false ∧ entry.1 ≠ [] := by
        decide
    obtain ⟨hhead, hnonempty⟩ := hall entry hentry
    cases hlexeme : entry.1 with
    | nil => exact absurd hlexeme hnonempty
    | cons x more =>
        rw [hlexeme] at hhead
        simp [List.isPrefixOf, (hne x hhead).symm]
  have hbroken : ofText b first rest = .broken (.unexpectedChar first) 1 := by
    unfold ofText scan
    simp [List.isPrefixOf, hne '#' (by decide), hne '"' (by decide), hne '\'' (by decide),
      hne '@' (by decide), hne '$' (by decide), hnumber, hstart, hnone, (hne '/' (by decide)).symm]
  rw [hbroken]
  exact .broken

/-- Such a piece is a token other than a semicolon, if it is sound. -/
theorem WordLike.exists_kind {first : Char} {rest : List Char} {piece : Piece}
    (h : WordLike first rest piece) (sound : piece.faults = []) :
    ∃ kind, piece.kind? = some kind ∧ kind ≠ .semicolon := by
  cases h with
  | word => exact ⟨_, rfl, Keyword.getD_of_forall (P := (· ≠ .semicolon)) (by decide) (by decide) _⟩
  | number =>
      refine ⟨_, rfl, ?_⟩
      split <;> decide
  | broken => cases sound

end Piece

namespace TokenStream

/-- No word goes on where a semicolon is the next token. -/
theorem not_identContinue_of_semicolon {c : Cursor} (clean : (ofCursor c).errors = []) {t : Token}
    {rest : List Token} (htokens : (ofCursor c).tokens = t :: rest) (semicolon : t.kind = .semicolon) :
    c.rest.head?.any Text.isIdentContinue = false := by
  cases hrest : c.rest with
  | nil => rfl
  | cons x more =>
      refine Bool.eq_false_iff.2 fun hcontinue => ?_
      replace hcontinue : Text.isIdentContinue x = true := hcontinue
      have hplain : isLead x = false := by
        rw [isLead, Text.isBlank_of_isIdentContinue hcontinue, Bool.false_or, decide_eq_false_iff_not]
        rintro rfl
        rw [Text.isIdentContinue_mark] at hcontinue
        cases hcontinue
      have hhere : c.skip (leadLength c.rest) = c := by
        rw [hrest, leadLength_of_plain hplain]
        rfl
      have sound : Sound c := hhere ▸ sound_of_clean clean (hhere.symm ▸ hrest)
      have hpiece := pieceAt_of_rest hrest
      obtain ⟨kind, hkind, hother⟩ :=
        (Piece.wordLike_of_identContinue c.lineIsBlank more hcontinue).exists_kind
          (hpiece ▸ sound.faults)
      rw [ofCursor_of_sound sound, tokensAt, hpiece, hkind] at htokens
      obtain rfl : tokenAt c _ kind = t := (List.cons.inj htokens).1
      exact hother semicolon

/-! ### Excerpts -/

theorem seam_append {w a v : List Char} (seam : Seam a v) (nonempty : a ≠ []) : Seam (w ++ a) v := by
  refine seam.imp_left fun hlast => ?_
  rwa [List.getLast?_append_of_ne_nil w nonempty]

/-- Two beginnings of a text with the same number of bytes are one. -/
theorem eq_of_byteLength_eq {text text' whole : List Char} (h : text <+: whole) (h' : text' <+: whole)
    (hbytes : Text.byteLength text = Text.byteLength text') : text = text' :=
  (Text.isPrefix_of_byteLength_le h h' (Nat.le_of_eq hbytes)).eq_of_length_le
    (Text.isPrefix_of_byteLength_le h' h (Nat.le_of_eq hbytes.symm)).length_le

/-- What can be cut off behind a token: anything behind a token that is no number, and what
starts with a semicolon. -/
def Ends (last : Token) (post : List Token) : Prop :=
  (last.kind ≠ .intLiteral ∧ last.kind ≠ .realLiteral) ∨ ∃ t ∈ post.head?, t.kind = .semicolon

/-- Behind the piece of a token its source can be cut off. -/
theorem seam_of_ends {d : Cursor} {last : Token} {post : List Token} {stop : Position}
    (sound : Sound d) (htoken : tokensAt d = [last])
    (hpost : ofCursor (d.skip (pieceAt d).count) = ⟨post, [], stop⟩) (ends : Ends last post) :
    Seam (d.rest.take (pieceAt d).count) (d.skip (pieceAt d).count).rest := by
  obtain ⟨⟨first, rest, hrest, -⟩, -⟩ := sound
  obtain ⟨kind, hkind, rfl⟩ := Option.map_eq_some_iff.1 (Option.toList_eq_singleton_iff.1 htoken)
  rw [Cursor.rest_skip]
  cases hnumber : Number.starts (first :: rest) with
  | false =>
      rw [pieceAt_of_rest hrest] at hkind ⊢
      rw [hrest]
      exact Piece.seam_of_kind? hkind hnumber
  | true =>
      rcases ends with ⟨notInt, notReal⟩ | ⟨t, ht, semicolon⟩
      · -- the token is a number
        rw [pieceAt_of_rest hrest, Piece.ofText_number hnumber] at hkind
        obtain rfl := Option.some.inj hkind
        change ¬(if _ then _ else _) = _ at notInt notReal
        split at notInt
        · rename_i hreal
          rw [if_pos hreal] at notReal
          exact absurd rfl notReal
        · exact absurd rfl notInt
      · obtain ⟨more, rfl⟩ := List.head?_eq_some_iff.1 ht
        rw [← Cursor.rest_skip]
        exact .inr (not_identContinue_of_semicolon (by rw [hpost]) (by rw [hpost]) semicolon)

/-- The characters `text` of a source, behind `before`, which are read from the first of
some tokens to the last one. -/
structure Excerpt (source : String) (toks : List Token) (before text : List Char) : Prop where
  /-- The text can be cut off where it ends. -/
  cut : ∃ behind, source.toList = before ++ (text ++ behind) ∧ Seam text behind ∧
    ∃ stop, stop.rest = behind ∧ EndsAt stop toks ∧
    Reads ((Cursor.ofText source.toList).skip before.length) stop toks
  /-- The text can be cut off where it starts. -/
  plain : ∃ first rest, text = first :: rest ∧ isLead first = false ∧ first ≠ '#'
  offset : ∀ t ∈ toks.head?, t.span.offset = Text.byteLength before
  stop : ∀ t ∈ toks.getLast?, t.span.stop = Text.byteLength (before ++ text)

/-- No token starts with the character that starts a directive. -/
theorem ne_directive {c : Cursor} {first : Char} {rest : List Char} {t : Token} (h : c.rest = first :: rest)
    (htoken : tokensAt c = [t]) : first ≠ '#' := by
  obtain ⟨kind, hkind, -⟩ := Option.map_eq_some_iff.1 (Option.toList_eq_singleton_iff.1 htoken)
  rintro rfl
  rw [pieceAt_of_rest h] at hkind
  cases hline : c.lineIsBlank with
  | true =>
      rw [hline, Piece.ofText_directive] at hkind
      cases hkind
  | false =>
      rw [hline, Piece.ofText_hash] at hkind
      cases hkind

/-- A piece is not empty. -/
theorem Sound.take_ne_nil {d : Cursor} (sound : Sound d) : d.rest.take (pieceAt d).count ≠ [] := by
  obtain ⟨⟨first, rest, hrest, -⟩, -⟩ := sound
  obtain ⟨n, hn⟩ := Nat.exists_eq_add_one_of_ne_zero (Nat.ne_of_gt (count_pieceAt_pos hrest))
  rw [hrest, hn, List.take_succ_cons]
  exact List.cons_ne_nil _ _

/-- A token starts where its piece does, and ends where that does. -/
theorem place_of_tokensAt {d : Cursor} {t : Token} (htoken : tokensAt d = [t]) :
    t.span.offset = d.position.offset ∧ t.span.stop = (d.skip (pieceAt d).count).position.offset := by
  obtain ⟨kind, -, rfl⟩ := Option.map_eq_some_iff.1 (Option.toList_eq_singleton_iff.1 htoken)
  exact ⟨rfl, stop_tokenAt _ _ _⟩

/-- Tokens that follow one another are read from the cursor before the first one up to
the piece of the last one. -/
theorem reads_up_to {c : Cursor} (clean : (ofCursor c).errors = []) {pre more front post : List Token}
    {first last : Token} (htokens : (ofCursor c).tokens = pre ++ first :: (more ++ post))
    (hlast : first :: more = front ++ [last]) :
    ∃ d e, Reads c d pre ∧ Sound d ∧ tokensAt d = [first] ∧ Reads d e front ∧ Sound e ∧ tokensAt e = [last] ∧
      ofCursor (e.skip (pieceAt e).count) = ⟨post, [], (ofCursor c).stop⟩ := by
  obtain ⟨d, hbefore, sound, htoken, hpost⟩ := reads_of_tokens clean htokens
  have hstream := ofCursor_of_sound sound
  rw [htoken, hpost] at hstream
  have hrest : (ofCursor d).tokens = front ++ last :: post := by
    rw [hstream]
    change first :: more ++ post = _
    rw [hlast, List.append_assoc]
    rfl
  obtain ⟨e, hfront, sound', htoken', hpost'⟩ := reads_of_tokens (by rw [hstream]) hrest
  refine ⟨d, e, hbefore, sound, htoken, hfront, sound', htoken', ?_⟩
  rw [hpost', hstream]

/-- Tokens that follow one another in a source are read from a part of its text. -/
theorem exists_excerpt {source : String} (clean : (ofText source).errors = [])
    {pre more front post : List Token} {first last : Token}
    (htokens : (ofText source).tokens = pre ++ first :: (more ++ post))
    (hlast : first :: more = front ++ [last]) (ends : Ends last post) :
    ∃ before text, Excerpt source (first :: more) before text := by
  obtain ⟨d, e, hbefore, sound, htoken, hfront, sound', htoken', hpost⟩ := reads_up_to clean htokens hlast
  have hreads : Reads d (e.skip (pieceAt e).count) (first :: more) := by
    rw [hlast, ← htoken', ← List.append_nil (tokensAt e)]
    exact hfront.trans (.piece sound' (.done _))
  have hstop := (place_of_tokensAt htoken').2
  obtain ⟨before, hsource, rfl⟩ := hbefore.skip
  obtain ⟨text, htext, hend⟩ := hreads.skip
  have hoffset : ((Cursor.ofText source.toList).skip before.length).position.offset =
      Text.byteLength before :=
    (Cursor.offset_skip_length hsource).trans (Nat.zero_add _)
  have hendOffset := Cursor.offset_skip_length htext
  rw [← hend, hoffset, ← Text.byteLength_append] at hendOffset
  -- the text ends with the piece of the last token
  obtain ⟨inner, hinner, -⟩ := hfront.skip
  have hsplit : text = inner ++ e.rest.take (pieceAt e).count := by
    refine (List.append_left_inj (e.skip (pieceAt e).count).rest).1 ?_
    rw [← htext, hinner, List.append_assoc, Cursor.rest_skip, List.take_append_drop]
  obtain ⟨⟨x, rest, hx, hplain⟩, -⟩ := sound
  refine ⟨before, text, ⟨_, ?_, ?_, _, rfl, ⟨front, last, hlast, hstop⟩, hreads⟩, ?_, ?_, ?_⟩
  · rw [← htext]
    exact hsource
  · rw [hsplit]
    exact seam_append (seam_of_ends sound' htoken' hpost ends) sound'.take_ne_nil
  · cases hempty : text with
    | nil =>
        rw [hempty] at hsplit
        exact absurd (List.append_eq_nil_iff.1 hsplit.symm).2 sound'.take_ne_nil
    | cons y more =>
        rw [hempty, hx] at htext
        obtain rfl : x = y := (List.cons.inj htext).1
        exact ⟨x, more, rfl, hplain, ne_directive hx htoken⟩
  · rintro t ht
    obtain rfl : first = t := Option.some.inj ht
    exact (place_of_tokensAt htoken).1.trans hoffset
  · rintro t ht
    rw [hlast, List.getLast?_concat] at ht
    obtain rfl := Option.some.inj ht
    rw [hstop, hendOffset]

/-- An excerpt has the tokens that it is read as, wherever it stands. -/
theorem Excerpt.ofText {source : String} {toks : List Token} {before text : List Char}
    (h : Excerpt source toks before text) : (ofText (String.ofList text)).errors = [] ∧
      (ofText (String.ofList text)).tokens.map Token.mark = toks.map Token.mark := by
  obtain ⟨behind, hsource, hseam, stop, rfl, hends, hreads⟩ := h.cut
  have hrest : ((Cursor.ofText source.toList).skip before.length).rest = text ++ stop.rest :=
    Cursor.rest_skip_length hsource
  obtain ⟨toks', hreads', hmoved⟩ := hreads.moved (d := .ofText text) hrest rfl
    (List.append_nil text).symm nofun hseam (.inr h.plain) (.inr hends)
  have hend : ((Cursor.ofText text).skip text.length).rest = [] :=
    Cursor.rest_skip_length (List.append_nil text).symm
  have hnone := ofCursor_of_rest_nil (by rw [Cursor.skip_of_rest_nil hend]; exact hend)
  rw [TokenStream.ofText, String.toList_ofList, ofCursor_of_reads hreads', hnone, List.append_nil]
  exact ⟨rfl, Token.map_mark_of_moved hmoved⟩

/-- The text that a span from the first of the tokens to the last one covers is the excerpt. -/
theorem Excerpt.eq_of_covers {source : String} {toks : List Token} {before text : List Char}
    (h : Excerpt source toks before text) {first last : Token} (hfirst : toks.head? = some first)
    (hlast : toks.getLast? = some last) {span : Span} (offset : span.offset = first.span.offset)
    (stop : span.stop = last.span.stop) {before' copied : List Char}
    (covers : span.Covers source.toList before' copied) : copied = text := by
  obtain ⟨behind, hsource, -⟩ := h.cut
  obtain rfl : before' = before := by
    refine eq_of_byteLength_eq ((List.prefix_append _ _).trans covers.inside)
      (hsource ▸ List.prefix_append _ _) ?_
    rw [← covers.offset, offset, h.offset first hfirst]
  refine (List.append_right_inj before').1 (eq_of_byteLength_eq covers.inside ?_ ?_)
  · rw [hsource, ← List.append_assoc]
    exact List.prefix_append _ _
  · rw [← covers.stop, stop, h.stop last hlast]

end TokenStream

end Graft
