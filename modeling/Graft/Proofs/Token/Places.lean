/-
Module: Graft.Proofs.Token.Places
Purpose: Where the tokens of a source stand, and where what cannot be read stands.
Main exports: Piece.first_le_stop, TokenStream.covers_of_mem_all, TokenStream.pairwise_all,
  TokenStream.places_exact

The lexer moves one cursor over the source, and both tokens and errors take their places from it.  So
every place is the one behind the characters passed so far, and pieces follow one another because each
of them passes at least one character.
-/
import Graft.Proofs.Source.Places
import Graft.Proofs.Token.Reads

namespace Graft

/-! ### Faults -/

namespace Literal

/-- The places that an open level has noted come in order, and none is beyond the character number
`count`. -/
structure Level.Ordered (count : Nat) (level : Level) : Prop where
  char : ∀ first, level.inside = .char first → first ≤ count
  cuts : ∀ cut ∈ level.cuts, cut.first ≤ cut.stop

theorem Level.Ordered.mono {count count' : Nat} {level : Level} (h : level.Ordered count)
    (hle : count ≤ count') : level.Ordered count' :=
  ⟨fun first hfirst => Nat.le_trans (h.char first hfirst) hle, h.cuts⟩

theorem Level.Ordered.absorb {count : Nat} {level : Level} {cuts : List Cut} (h : level.Ordered count)
    (hcuts : ∀ cut ∈ cuts, cut.first ≤ cut.stop) : (level.absorb cuts).Ordered count :=
  ⟨h.char, fun cut hcut => (List.mem_append.1 hcut).elim (h.cuts cut) (hcuts cut)⟩

variable {inside nested : Inside} {count : Nat} {c : Char} {ahead : List Char}

/-- Inside a character literal one stays in the same one. -/
theorem eq_char_of_move_pass {extra first : Nat} (h : move inside count c ahead = .pass extra nested)
    (hnested : nested = .char first) : inside = .char first := by
  subst hnested
  unfold move at h
  cases inside <;> grind [opened]

/-- A character literal opens where its quote stands. -/
theorem eq_count_of_move_enter {first : Nat} (h : move inside count c ahead = .enter nested)
    (hnested : nested = .char first) : first = count := by
  subst hnested
  unfold move at h
  cases inside <;> grind [opened]

/-- Only a character literal is cut short. -/
theorem eq_char_of_move_cut {first : Nat} (h : move inside count c ahead = .cut first) :
    inside = .char first := by
  unfold move at h
  cases inside <;> grind

/-- The character literals that are cut short end behind where they start. -/
theorem first_le_stop_reach (stack : List Level) (count : Nat) (text : List Char)
    (h : ∀ level ∈ stack, level.Ordered count) :
    ∀ cut ∈ (reach stack count text).cuts, cut.first ≤ cut.stop := by
  have hunclosed : ∀ (stack : List Level) (count : Nat), (∀ level ∈ stack, level.Ordered count) →
      ∀ cut ∈ (Extent.unclosed stack count).cuts, cut.first ≤ cut.stop := by
    intro stack count h cut hcut
    obtain ⟨level, hlevel, hcut⟩ := List.mem_flatMap.1 hcut
    exact (h level (List.mem_reverse.1 (List.mem_of_mem_take hlevel))).cuts cut hcut
  fun_induction reach stack count text with
  | case1 => simp
  | case2 count first cuts outside outer =>
      refine hunclosed _ _ fun level hlevel => ?_
      rw [List.forall_mem_cons, List.forall_mem_cons] at h
      obtain ⟨hchar, houtside, houter⟩ := h
      rcases List.mem_cons.1 hlevel with rfl | hlevel
      · refine houtside.absorb fun cut hcut => ?_
        rcases List.mem_append.1 hcut with hcut | hcut
        · exact hchar.cuts cut hcut
        · obtain rfl := List.mem_singleton.1 hcut
          exact hchar.char first rfl
      · exact houter level hlevel
  | case3 => exact hunclosed _ _ h
  | case4 count level outer c rest extra inside hmove ih =>
      rw [List.forall_mem_cons] at h
      refine ih fun other hother => ?_
      rcases List.mem_cons.1 hother with rfl | hother
      · refine ⟨fun first hfirst => ?_, h.1.cuts⟩
        have := h.1.char first (eq_char_of_move_pass hmove hfirst)
        omega
      · exact (h.2 other hother).mono (by omega)
  | case5 count level outer c rest nested hmove ih =>
      refine ih fun other hother => ?_
      rcases List.mem_cons.1 hother with rfl | hother
      · refine ⟨fun first hfirst => ?_, by simp [Level.fresh]⟩
        rw [eq_count_of_move_enter hmove hfirst]
        exact Nat.le_succ _
      · exact (h other hother).mono (Nat.le_succ _)
  | case6 count level c rest hmove =>
      exact (h level List.mem_cons_self).cuts
  | case7 count level c rest hmove outside outer ih =>
      rw [List.forall_mem_cons, List.forall_mem_cons] at h
      obtain ⟨hlevel, houtside, houter⟩ := h
      refine ih fun other hother => ?_
      rcases List.mem_cons.1 hother with rfl | hother
      · exact (houtside.mono (Nat.le_succ _)).absorb hlevel.cuts
      · exact (houter other hother).mono (Nat.le_succ _)
  | case8 => exact hunclosed _ _ h
  | case9 count level c rest first hmove outside outer ih =>
      rw [List.forall_mem_cons, List.forall_mem_cons] at h
      obtain ⟨hlevel, houtside, houter⟩ := h
      refine ih fun other hother => ?_
      rcases List.mem_cons.1 hother with rfl | hother
      · refine (houtside.mono (Nat.le_succ _)).absorb fun cut hcut => ?_
        rcases List.mem_append.1 hcut with hcut | hcut
        · exact hlevel.cuts cut hcut
        · obtain rfl := List.mem_singleton.1 hcut
          exact hlevel.char first (eq_char_of_move_cut hmove)
      · exact (houter other hother).mono (Nat.le_succ _)
  | case10 => exact hunclosed _ _ h

end Literal

namespace Piece

/-- A fault ends behind where it starts. -/
theorem first_le_stop {b : Bool} {first : Char} {rest : List Char} :
    ∀ fault ∈ (ofText b first rest).faults, fault.first ≤ fault.stop := by
  have hbroken : ∀ cause count, ∀ fault ∈ (broken cause count).faults, fault.first ≤ fault.stop := by
    intro cause count fault hfault
    obtain rfl := List.mem_singleton.1 hfault
    exact Nat.zero_le _
  have hstring : ∀ marks text, ∀ fault ∈ (string marks text).faults, fault.first ≤ fault.stop := by
    intro marks text
    have hcuts := Literal.first_le_stop_reach
      [.fresh (Literal.opened marks.verbatim marks.holes (text.drop (marks.count + 1)))]
      (marks.count + 1) (text.drop (marks.count + 1)) (by
        intro level hlevel
        obtain rfl := List.mem_singleton.1 hlevel
        refine ⟨fun first hfirst => ?_, by simp [Literal.Level.fresh]⟩
        simp only [Literal.Level.fresh, Literal.opened] at hfirst
        split at hfirst <;> cases hfirst)
    unfold string
    dsimp only
    generalize Literal.reach [.fresh (Literal.opened marks.verbatim marks.holes
      (text.drop (marks.count + 1)))] (marks.count + 1) (text.drop (marks.count + 1)) = extent at hcuts ⊢
    have hfaults : ∀ fault ∈ extent.cuts.map fun cut => Fault.mk .unterminatedChar cut.first cut.stop,
        fault.first ≤ fault.stop := by
      intro fault hfault
      obtain ⟨cut, hcut, rfl⟩ := List.mem_map.1 hfault
      exact hcuts cut hcut
    split
    · exact hfaults
    · intro fault hfault
      rcases List.mem_append.1 hfault with hfault | hfault
      · exact hfaults fault hfault
      · obtain rfl := List.mem_singleton.1 hfault
        exact Nat.zero_le _
  have hnone : ∀ kind count, ∀ fault ∈ (token kind count).faults, fault.first ≤ fault.stop := by
    simp [token]
  unfold ofText
  dsimp only
  split
  · simp [line, separator]
  split
  · unfold comment
    dsimp only
    split
    · simp [separator]
    · exact hbroken _ _
  split
  · simp [line, separator]
  unfold scan
  dsimp only
  split
  · exact hstring _ _
  split
  · unfold char
    dsimp only
    split
    · exact hnone _ _
    · exact hbroken _ _
  split
  · unfold marked
    split
    · exact hnone _ _
    · dsimp only
      split
      · exact hstring _ _
      · exact hbroken _ _
  split
  · exact hnone _ _
  split
  · exact hnone _ _
  split
  · exact hnone _ _
  · exact hbroken _ _

/-- No word and no operator is the end of a source. -/
theorem kind?_word_ne (text : List Char) : (word text).kind? ≠ some .endOfFile := fun h =>
  Keyword.getD_of_forall (P := (· ≠ .endOfFile)) (by decide) (by decide) _ (Option.some.inj h)

/-- The token at the start of a text is not the end of the source. -/
theorem kind?_ofText_ne {b : Bool} {first : Char} {rest : List Char} :
    (ofText b first rest).kind? ≠ some .endOfFile := by
  have hstring : ∀ marks text, (string marks text).kind? ≠ some .endOfFile := by
    intro marks text
    unfold string stringKind
    dsimp only
    split
    · dsimp only
      split
      · simp
      · split
        · simp
        · split <;> simp
    · simp
  unfold ofText
  dsimp only
  split
  · simp [line, separator]
  split
  · unfold comment
    dsimp only
    split <;> simp [separator, broken]
  split
  · simp [line, separator]
  unfold scan
  dsimp only
  split
  · exact hstring _ _
  split
  · unfold char
    dsimp only
    split <;> simp [token, broken]
  split
  · unfold marked
    split
    · simp [token]
    · dsimp only
      split
      · exact hstring _ _
      · simp [broken]
  split
  · simp only [token]
    split <;> simp
  split
  · exact kind?_word_ne _
  split
  · rename_i hmatch
    have hmem : ∀ entry ∈ Operator.table, entry.2 ≠ .endOfFile := by decide
    simpa [token] using hmem _ (Operator.of_match?_eq_some hmatch).1
  · simp [broken]

end Piece

/-! ### Tokens and errors -/

namespace TokenStream

variable {source : List Char}

/-- What is known of a token that the lexer makes at a place. -/
structure Placed (source : List Char) (start : Nat) (t : Token) : Prop where
  covers : ∃ before, t.span.Covers source before t.lexeme.toList
  nonempty : t.lexeme.toList ≠ []
  kind : t.kind ≠ .endOfFile
  start_le : start ≤ t.span.offset

theorem Placed.mono {start start' : Nat} {t : Token} (h : Placed source start t) (hle : start' ≤ start) :
    Placed source start' t := { h with start_le := Nat.le_trans hle h.start_le }

/-- A token covers at least one byte. -/
theorem Placed.offset_lt_stop {start : Nat} {t : Token} (h : Placed source start t) :
    t.span.offset < t.span.stop := by
  obtain ⟨before, hcovers⟩ := h.covers
  have hpos := byteLength_pos h.nonempty
  rw [Span.stop, hcovers.length]
  omega

/-- A token covers its own text. -/
theorem covers_tokenAt {c : Cursor} {passed : List Char} (h : c.IsIn source passed) (count : Nat)
    (kind : TokenKind) :
    (tokenAt c count kind).span.Covers source passed (tokenAt c count kind).lexeme.toList := by
  have hcovers := h.covers (Nat.zero_le count)
  simpa [tokenAt, Cursor.spanOf, Cursor.skip] using hcovers

/-- The tokens from a cursor on follow one another, each where its text stands. -/
theorem tokens_ofCursor (before : Cursor) : ∀ passed : List Char, before.IsIn source passed →
    (∀ t ∈ (ofCursor before).tokens, Placed source before.position.offset t) ∧
    (ofCursor before).tokens.Pairwise (fun t u => t.span.stop ≤ u.span.offset) ∧
    (ofCursor before).stop = Position.start.after source ∧
    (∀ e ∈ (ofCursor before).errors, ∃ front text, e.span.Covers source front text) := by
  induction before using ofCursor.induct with
  | case1 before c h =>
      intro passed hin
      have hc := hin.skip (leadLength before.rest)
      rw [ofCursor_of_rest_nil h]
      refine ⟨by simp, .nil, ?_, by simp⟩
      have hend := hc.split
      rw [h, List.append_nil] at hend
      rw [hc.position, hend]
  | case2 before c first rest h piece ih =>
      intro passed hin
      have hc : c.IsIn source _ := hin.skip (leadLength before.rest)
      have hlead : before.position.offset ≤ c.position.offset := by
        rw [hc.position, Position.after_append, ← hin.position, Position.offset_after]
        exact Nat.le_add_right _ _
      have hstop : c.position.offset ≤ (c.skip piece.count).position.offset := by
        rw [Cursor.position_skip piece.count c, Position.offset_after]
        exact Nat.le_add_right _ _
      obtain ⟨hplaced, hordered, hend, herrors⟩ := ih _ (hc.skip piece.count)
      rw [ofCursor_of_rest_cons h]
      refine ⟨fun t ht => ?_, ?_, hend, fun e he => ?_⟩
      · rcases List.mem_append.1 ht with hfirst | hlater
        · obtain ⟨kind, hkind, rfl⟩ := Option.map_eq_some_iff.1 (Option.mem_toList.1 hfirst)
          refine ⟨⟨_, covers_tokenAt hc piece.count kind⟩, ?_,
            fun hend => Piece.kind?_ofText_ne (hkind.trans (congrArg some hend)), hlead⟩
          obtain ⟨n, hn⟩ := Nat.exists_eq_add_one_of_ne_zero
            (Nat.ne_of_gt (Piece.count_ofText_pos c.lineIsBlank first rest))
          change (String.ofList (c.rest.take piece.count)).toList ≠ []
          rw [h, hn, String.toList_ofList]
          exact List.cons_ne_nil _ _
        · exact (hplaced t hlater).mono (Nat.le_trans hlead hstop)
      · refine List.pairwise_append.2 ⟨?_, hordered, fun t ht u hu => ?_⟩
        · cases piece.kind? <;> simp
        · obtain ⟨kind, -, rfl⟩ := Option.map_eq_some_iff.1 (Option.mem_toList.1 ht)
          rw [stop_tokenAt]
          exact (hplaced u hu).start_le
      · rcases List.mem_append.1 he with hfirst | hlater
        · obtain ⟨fault, hfault, rfl⟩ := List.mem_map.1 hfirst
          exact ⟨_, _, hc.covers (Piece.first_le_stop fault hfault)⟩
        · exact herrors e hlater

/-- Every token of a source, the one that marks the end included, covers its own text. -/
theorem covers_of_mem_all {source : String} {t : Token} (h : t ∈ (ofText source).all) :
    ∃ before, t.span.Covers source.toList before t.lexeme.toList := by
  obtain ⟨hplaced, -, hstop, -⟩ := tokens_ofCursor (.ofText source.toList) [] (Cursor.isIn_ofText _)
  rcases List.mem_append.1 h with h | h
  · exact (hplaced t h).covers
  · obtain rfl := List.mem_singleton.1 h
    have hend := Position.isBehind_after source.toList
    rw [← hstop] at hend
    exact ⟨source.toList, ⟨by simp [Token.endOfFile], hend.offset, rfl, hend.line, hend.column⟩⟩

/-- Tokens are in the order of the text, do not overlap and all but the last cover something. -/
theorem pairwise_all (source : String) : (ofText source).all.Pairwise fun t u =>
    t.span.offset < u.span.offset ∧ t.span.stop ≤ u.span.offset := by
  obtain ⟨hplaced, hordered, hstop, -⟩ :=
    tokens_ofCursor (.ofText source.toList) [] (Cursor.isIn_ofText _)
  have hfollows : ∀ t ∈ (ofText source).tokens, ∀ u : Token, t.span.stop ≤ u.span.offset →
      t.span.offset < u.span.offset ∧ t.span.stop ≤ u.span.offset := fun t ht u hle =>
    ⟨Nat.lt_of_lt_of_le (hplaced t ht).offset_lt_stop hle, hle⟩
  refine List.pairwise_append.2 ⟨?_, List.pairwise_singleton _ _, fun t ht u hu => ?_⟩
  · exact hordered.imp_of_mem fun {t u} ht _ hle => hfollows t ht u hle
  · obtain rfl := List.mem_singleton.1 hu
    obtain ⟨before, hcovers⟩ := (hplaced t ht).covers
    refine hfollows t ht _ ?_
    change t.span.stop ≤ (ofText source).stop.offset
    rw [show (ofText source).stop = _ from hstop, (Position.isBehind_after source.toList).offset]
    exact hcovers.stop_le

/-! ### Numbers of 32 bits -/

/-- The numbers of a place fit in 32 bits. -/
def FitsWord (p : Position) : Prop := p.offset < UInt32.size ∧ p.line < UInt32.size ∧ p.column < UInt32.size

/-- Wherever the lexer stands in a source that is not too long, its counts fit in 32 bits. -/
theorem fitsWord_skip {source : List Char} (short : Text.byteLength source < UInt32.size - 1) (n : Nat) :
    FitsWord ((Cursor.ofText source).skip n).position := by
  have hin := (Cursor.isIn_ofText source).skip n
  obtain ⟨hoffset, hline, hcolumn⟩ := hin.isBehind.le
  have hbytes := Text.byteLength_le_of_prefix (show _ <+: source from ⟨_, hin.split.symm⟩)
  unfold FitsWord
  omega

/-- The marks before a string are part of the text. -/
theorem readMarks_le (marks : Literal.Marks) (text : List Char) :
    (Literal.readMarks marks text).count ≤ marks.count + text.length := by
  fun_induction Literal.readMarks marks text with
  | case1 => exact Nat.le_add_right _ _
  | case2 marks rest _ ih | case3 marks rest ih =>
      rw [List.length_cons]
      dsimp only at ih
      omega
  | case4 => exact Nat.le_add_right _ _

/-- The tokens of a source and their places are exact.  The last token, and no other, marks the end, where
the source ends.  Every token covers its text in the source, in the line and column where it stands, and
all but the last cover something; they follow one another without overlap.  Every error covers a part of
the source in the same way.  If the source has fewer than `UInt32.size - 1` bytes, no number that is counted
on the way leaves 32 bits: neither a place that the lexer stands at, nor the end of a span, nor the number of
marks before a string; and each piece passes at least one character, so that the end is reached. -/
theorem places_exact (source : String) (short : source.utf8ByteSize < UInt32.size - 1) :
    (∃ init last, (ofText source).all = init ++ [last] ∧ last.kind = .endOfFile ∧
      last.span.offset = source.utf8ByteSize ∧ ∀ t ∈ init, t.kind ≠ .endOfFile ∧ t.lexeme ≠ "") ∧
    (∀ t ∈ (ofText source).all, (∃ before, t.span.Covers source.toList before t.lexeme.toList) ∧
      t.span.slice? source = some t.lexeme) ∧
    (ofText source).all.Pairwise
      (fun t u => t.span.offset < u.span.offset ∧ t.span.stop ≤ u.span.offset) ∧
    (∀ e ∈ (ofText source).errors, ∃ before text, e.span.Covers source.toList before text) ∧
    (∀ n, FitsWord ((Cursor.ofText source.toList).skip n).position) ∧
    (∀ t ∈ (ofText source).all, t.span.stop < UInt32.size) ∧
    (∀ e ∈ (ofText source).errors, e.span.stop < UInt32.size) ∧
    (∀ n, (Literal.readMarks ⟨0, false, false⟩ (source.toList.drop n)).count < UInt32.size) ∧
    ∀ lineIsBlank first rest, 0 < (Piece.ofText lineIsBlank first rest).count := by
  obtain ⟨hplaced, -, hstop, herrors⟩ :=
    tokens_ofCursor (.ofText source.toList) [] (Cursor.isIn_ofText _)
  have hbytes : Text.byteLength source.toList = source.utf8ByteSize := by
    rw [Text.byteLength_eq_utf8ByteSize, String.ofList_toList]
  have hsize : Text.byteLength source.toList < UInt32.size - 1 := by rw [hbytes]; exact short
  have hcovers : ∀ t ∈ (ofText source).all, ∃ before, t.span.Covers source.toList before t.lexeme.toList :=
    fun t ht => covers_of_mem_all ht
  have hfits : ∀ {s : Span} {before text}, s.Covers source.toList before text → s.stop < UInt32.size := by
    intro s before text h
    have hle := h.stop_le
    omega
  refine ⟨⟨(ofText source).tokens, .endOfFile (ofText source).stop, rfl, rfl, ?_,
    fun t ht => ⟨(hplaced t ht).kind, ?_⟩⟩, fun t ht => ⟨hcovers t ht, ?_⟩, pairwise_all source, herrors,
    fitsWord_skip hsize, fun t ht => ?_, fun e he => ?_, fun n => ?_, Piece.count_ofText_pos⟩
  · change (ofText source).stop.offset = _
    rw [show (ofText source).stop = _ from hstop, (Position.isBehind_after source.toList).offset, hbytes]
  · intro hempty
    exact (hplaced t ht).nonempty (by rw [hempty]; rfl)
  · obtain ⟨before, h⟩ := hcovers t ht
    rw [h.slice?, String.ofList_toList]
  · obtain ⟨before, h⟩ := hcovers t ht
    exact hfits h
  · obtain ⟨before, text, h⟩ := herrors e he
    exact hfits h
  · have hmarks := readMarks_le ⟨0, false, false⟩ (source.toList.drop n)
    have hlength := Text.length_le_byteLength source.toList
    rw [List.length_drop] at hmarks
    dsimp only at hmarks
    omega

/-- The places of a text with a line feed, characters of several bytes and a literal that is cut short. -/
theorem places_exact_twoLines :
    "é\n  'x".utf8ByteSize < UInt32.size - 1 ∧
      ∃ before text, (⟨5, 2, 3, 2⟩ : Span).Covers "é\n  'x".toList before text := by
  have short : "é\n  'x".utf8ByteSize < UInt32.size - 1 := by decide +kernel
  have herror : (ofText "é\n  'x").errors = [⟨.unterminatedChar, ⟨5, 2, 3, 2⟩⟩] := by decide +kernel
  refine ⟨short, ?_⟩
  exact (places_exact "é\n  'x" short).2.2.2.1 ⟨.unterminatedChar, ⟨5, 2, 3, 2⟩⟩ (by rw [herror]; simp)

end TokenStream

end Graft
