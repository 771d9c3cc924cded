/-
Module: Graft.Proofs.Token.Reads
Purpose: Reading a stretch of a source, and reading it again where it is copied to.
Main exports: TokenStream.Reads, TokenStream.ofCursor_of_reads, TokenStream.reads_of_tokens,
  TokenStream.Reads.moved

A source is read in steps, and steps that follow one another may be put together.  A stretch that ends
before a stop is read the same wherever it is copied to.
-/
import Mathlib.Data.List.Forall2
import Graft.Proofs.Token.Seam
import Graft.Proofs.Token.Word

namespace Graft

open Text (Stops Seam)

/-- A byte order mark starts no identifier. -/
theorem Text.isIdentStart_mark : isIdentStart '\ufeff' = false := by
  have hletter : isLetter '\ufeff' = false := by
    rw [isLetter, inRanges, ← Array.any_toList]
    decide +kernel
  rw [isIdentStart, hletter]
  rfl

/-- A byte order mark is no blank. -/
theorem Text.isBlank_mark : isBlank '\ufeff' = false := by
  decide +kernel

/-! ### Cursors -/

namespace Cursor

theorem skip_add (m n : Nat) (c : Cursor) : c.skip (m + n) = (c.skip m).skip n := by
  induction m generalizing c with
  | zero => rw [Nat.zero_add, skip]
  | succ m ih => rw [Nat.succ_add, skip, ih, skip]

/-- At the end of a text there is nothing more to skip. -/
theorem skip_of_rest_nil {c : Cursor} (h : c.rest = []) (n : Nat) : c.skip n = c := by
  induction n with
  | zero => rfl
  | succ n ih =>
      rw [skip]
      unfold advance
      rw [h]
      exact ih

theorem skip_of_length_le {c : Cursor} {n : Nat} (h : c.rest.length ≤ n) :
    c.skip n = c.skip c.rest.length := by
  obtain ⟨more, rfl⟩ := Nat.exists_eq_add_of_le h
  rw [skip_add, skip_of_rest_nil]
  rw [rest_skip, List.drop_length]

theorem rest_skip_length {c : Cursor} {a v : List Char} (h : c.rest = a ++ v) :
    (c.skip a.length).rest = v := by
  rw [rest_skip, h, List.drop_left]

theorem offset_skip_length {c : Cursor} {a v : List Char} (h : c.rest = a ++ v) :
    (c.skip a.length).position.offset = c.position.offset + Text.byteLength a := by
  rw [position_skip, Position.offset_after, h, List.take_left]

theorem advance_of_rest {c : Cursor} {x : Char} {rest : List Char} (h : c.rest = x :: rest) :
    c.advance = ⟨rest, c.position.next x, x = '\n' || (c.lineIsBlank && Text.isBlank x)⟩ := by
  unfold advance
  rw [h]

theorem rest_advance {c : Cursor} {x : Char} {rest : List Char} (h : c.rest = x :: rest) :
    c.advance.rest = rest := by
  rw [advance_of_rest h]

/-- Two cursors before the same characters stand alike behind them. -/
theorem lineIsBlank_skip {a v v' : List Char} : ∀ {c d : Cursor}, c.rest = a ++ v → d.rest = a ++ v' →
    d.lineIsBlank = c.lineIsBlank → (d.skip a.length).lineIsBlank = (c.skip a.length).lineIsBlank := by
  induction a with
  | nil => exact fun _ _ h => h
  | cons x rest ih =>
      intro c d hc hd hsame
      rw [List.length_cons, skip, skip]
      refine ih (rest_advance hc) (rest_advance hd) ?_
      rw [advance_of_rest hc, advance_of_rest hd, hsame]

/-- A line is not blank behind a character that is not. -/
theorem lineIsBlank_skip_of_plain {x : Char} {a v v' : List Char} {c d : Cursor}
    (hc : c.rest = x :: a ++ v) (hd : d.rest = x :: a ++ v') (plain : Text.isBlank x = false) :
    (d.skip (a.length + 1)).lineIsBlank = (c.skip (a.length + 1)).lineIsBlank := by
  rw [skip, skip]
  refine lineIsBlank_skip (rest_advance hc) (rest_advance hd) ?_
  rw [advance_of_rest hc, advance_of_rest hd, plain, Bool.and_false, Bool.and_false]

end Cursor

/-! ### Tokens -/

namespace Token

/-- A token of a stretch that starts at `p`, and the same in one that starts at `q`. -/
structure Moved (p q : Nat) (t t' : Token) : Prop where
  mark : t'.mark = t.mark
  offset : t'.span.offset + p = t.span.offset + q
  length : t'.span.length = t.span.length

theorem Moved.of_add {p q n : Nat} {t t' : Token} (h : Moved (p + n) (q + n) t t') : Moved p q t t' :=
  ⟨h.mark, by have := h.offset; omega, h.length⟩

/-- Tokens that have moved are the same but for their places. -/
theorem map_mark_of_moved {p q : Nat} {toks toks' : List Token}
    (h : List.Forall₂ (Moved p q) toks toks') : toks'.map mark = toks.map mark := by
  induction h with
  | nil => rfl
  | cons ht _ ih => rw [List.map_cons, List.map_cons, ht.mark, ih]

end Token

namespace TokenStream

/-! ### Steps -/

/-- A character that may stand before a piece. -/
def isLead (c : Char) : Bool := Text.isBlank c || c = '\ufeff'

/-- The piece that starts at a cursor. -/
def pieceAt (c : Cursor) : Piece :=
  match c.rest with
  | [] => .separator 0
  | first :: rest => .ofText c.lineIsBlank first rest

theorem pieceAt_of_rest {c : Cursor} {first : Char} {rest : List Char} (h : c.rest = first :: rest) :
    pieceAt c = .ofText c.lineIsBlank first rest := by
  unfold pieceAt
  rw [h]

theorem count_pieceAt_pos {c : Cursor} {first : Char} {rest : List Char} (h : c.rest = first :: rest) :
    0 < (pieceAt c).count := by
  rw [pieceAt_of_rest h]
  exact Piece.count_ofText_pos _ _ _

/-- The token of the piece at a cursor, if it is one. -/
def tokensAt (c : Cursor) : List Token := ((pieceAt c).kind?.map (tokenAt c (pieceAt c).count)).toList

/-- A sound piece starts at a cursor. -/
structure Sound (c : Cursor) : Prop where
  plain : ∃ first rest, c.rest = first :: rest ∧ isLead first = false
  faults : (pieceAt c).faults = []

/-- From one cursor reading comes to another one without an error, and yields tokens. -/
inductive Reads : Cursor → Cursor → List Token → Prop where
  | done (c : Cursor) : Reads c c []
  | lead {c c' : Cursor} {toks : List Token} {x : Char} {rest : List Char} (at_ : c.rest = x :: rest)
      (lead : isLead x = true) (next : rest.head? ≠ some '\ufeff') (later : Reads c.advance c' toks) :
      Reads c c' toks
  | piece {c c' : Cursor} {toks : List Token} (sound : Sound c)
      (later : Reads (c.skip (pieceAt c).count) c' toks) : Reads c c' (tokensAt c ++ toks)

namespace Reads

variable {c c' c'' : Cursor} {toks toks' : List Token}

theorem trans (h : Reads c c' toks) (h' : Reads c' c'' toks') : Reads c c'' (toks ++ toks') := by
  induction h with
  | done => exact h'
  | lead at_ lead next _ ih => exact .lead at_ lead next (ih h')
  | piece sound _ ih =>
      rw [List.append_assoc]
      exact .piece sound (ih h')

/-- Reading passes characters. -/
theorem skip (h : Reads c c' toks) : ∃ a, c.rest = a ++ c'.rest ∧ c' = c.skip a.length := by
  induction h with
  | done c => exact ⟨[], rfl, rfl⟩
  | @lead c c' toks x rest at_ _ _ _ ih =>
      obtain ⟨a, ha, hskip⟩ := ih
      rw [Cursor.rest_advance at_] at ha
      exact ⟨x :: a, by rw [at_, ha, List.cons_append], hskip⟩
  | @piece c c' toks sound _ ih =>
      obtain ⟨a, ha, hskip⟩ := ih
      rw [Cursor.rest_skip] at ha
      rcases Nat.lt_or_ge (pieceAt c).count c.rest.length with hlt | hge
      · refine ⟨c.rest.take (pieceAt c).count ++ a, ?_, ?_⟩
        · rw [List.append_assoc, ← ha, List.take_append_drop]
        · rw [hskip, List.length_append, List.length_take, Nat.min_eq_left (Nat.le_of_lt hlt),
            Cursor.skip_add]
      · rw [List.drop_eq_nil_iff.2 hge] at ha
        obtain ⟨rfl, hrest⟩ := List.append_eq_nil_iff.1 ha.symm
        refine ⟨c.rest, by rw [hrest, List.append_nil], ?_⟩
        rw [hskip, List.length_nil, Cursor.skip, Cursor.skip_of_length_le hge]

/-- Reading that passes nothing yields nothing. -/
theorem eq_nil (h : Reads c c' toks) (hrest : c.rest = c'.rest) : toks = [] := by
  cases h with
  | done => rfl
  | @lead _ _ _ x rest at_ _ _ later =>
      obtain ⟨a, ha, -⟩ := later.skip
      rw [Cursor.rest_advance at_] at ha
      rw [at_, ha] at hrest
      have := congrArg List.length hrest
      simp only [List.length_cons, List.length_append] at this
      omega
  | piece sound later =>
      obtain ⟨first, rest, hcons, -⟩ := sound.plain
      obtain ⟨a, ha, -⟩ := later.skip
      have hpos := count_pieceAt_pos hcons
      rw [Cursor.rest_skip] at ha
      have := congrArg List.length ha
      have hsame := congrArg List.length hrest
      rw [hcons] at this hsame
      simp only [List.length_cons, List.length_append, List.length_drop] at this hsame
      omega

end Reads

/-! ### What reading a stretch says of the stream -/

theorem leadLength_of_plain {first : Char} {rest : List Char} (h : isLead first = false) :
    leadLength (first :: rest) = 0 := by
  simp only [isLead, Bool.or_eq_false_iff, decide_eq_false_iff_not] at h
  simp [leadLength, Number.runLength, h.1, h.2]

theorem leadLength_of_lead {x : Char} {rest : List Char} (h : isLead x = true)
    (next : rest.head? ≠ some '\ufeff') : leadLength (x :: rest) = leadLength rest + 1 := by
  have hrest : leadLength rest = Number.runLength Text.isBlank rest := by
    simp [leadLength, next]
  rw [hrest]
  by_cases hmark : x = '\ufeff'
  · subst hmark
    simp [leadLength, Nat.add_comm]
  · simp only [isLead, hmark, decide_false, Bool.or_false] at h
    simp [leadLength, Number.runLength, hmark, h]

/-- What is read from a cursor on depends on where the next piece starts. -/
theorem ofCursor_congr {c d : Cursor} (h : c.skip (leadLength c.rest) = d.skip (leadLength d.rest)) :
    ofCursor c = ofCursor d := by
  cases hrest : (c.skip (leadLength c.rest)).rest with
  | nil => rw [ofCursor_of_rest_nil hrest, ofCursor_of_rest_nil (h ▸ hrest), h]
  | cons first rest =>
      have hc := ofCursor_of_rest_cons hrest
      rw [h] at hc hrest
      exact hc.trans (ofCursor_of_rest_cons hrest).symm

theorem ofCursor_of_sound {c : Cursor} (sound : Sound c) :
    ofCursor c = ⟨tokensAt c ++ (ofCursor (c.skip (pieceAt c).count)).tokens,
      (ofCursor (c.skip (pieceAt c).count)).errors, (ofCursor (c.skip (pieceAt c).count)).stop⟩ := by
  obtain ⟨⟨first, rest, hcons, hplain⟩, hfaults⟩ := sound
  have hlead : c.skip (leadLength c.rest) = c := by
    rw [hcons, leadLength_of_plain hplain]
    rfl
  have hpiece := pieceAt_of_rest hcons
  rw [ofCursor_of_rest_cons (hlead.symm ▸ hcons), hlead, ← hpiece, hfaults]
  rfl

/-- A stretch that is read yields the first tokens of the stream. -/
theorem ofCursor_of_reads {c c' : Cursor} {toks : List Token} (h : Reads c c' toks) :
    ofCursor c = ⟨toks ++ (ofCursor c').tokens, (ofCursor c').errors, (ofCursor c').stop⟩ := by
  induction h with
  | done c => rfl
  | @lead c c' toks x rest at_ lead next _ ih =>
      rw [← ih]
      refine ofCursor_congr ?_
      rw [at_, leadLength_of_lead lead next, Cursor.skip, Cursor.rest_advance at_]
  | piece sound _ ih => rw [ofCursor_of_sound sound, ih, List.append_assoc]

/-- A byte order mark is no piece of its own. -/
theorem ofText_mark (lineIsBlank : Bool) (rest : List Char) :
    Piece.ofText lineIsBlank '\ufeff' rest = .broken (.unexpectedChar '\ufeff') 1 := by
  have hdigit : Number.starts ('\ufeff' :: rest) = false := by
    simp [Number.starts, Char.isDigit]
  have hstart := Text.isIdentStart_mark
  have hnone : Operator.match? ('\ufeff' :: rest) = none := by
    refine List.find?_eq_none.2 fun entry hentry => ?_
    have hfirst : ∀ entry ∈ Operator.table, entry.1.head? ≠ some '\ufeff' ∧ entry.1 ≠ [] := by decide
    obtain ⟨hhead, hne⟩ := hfirst entry hentry
    cases hlexeme : entry.1 with
    | nil => exact absurd hlexeme hne
    | cons x more =>
        rw [hlexeme] at hhead
        simp only [List.head?_cons, Ne, Option.some.injEq] at hhead
        simp [List.isPrefixOf, hhead]
  simp [Piece.ofText, Piece.scan, hdigit, hstart, hnone, List.isPrefixOf]

/-- A byte order mark starts no sound piece. -/
theorem faults_ofText_mark (lineIsBlank : Bool) (rest : List Char) :
    (Piece.ofText lineIsBlank '\ufeff' rest).faults ≠ [] := by
  rw [ofText_mark]
  exact List.cons_ne_nil _ _

theorem ofCursor_advance {c : Cursor} {x : Char} {rest : List Char} (h : c.rest = x :: rest)
    (lead : isLead x = true) (next : rest.head? ≠ some '\ufeff') : ofCursor c = ofCursor c.advance :=
  ofCursor_congr (by rw [h, leadLength_of_lead lead next, Cursor.skip, Cursor.rest_advance h])

/-- In a sound stream no byte order mark stands behind a blank. -/
theorem head?_ne_mark {c : Cursor} (clean : (ofCursor c).errors = []) {x : Char} {rest : List Char}
    (h : c.rest = x :: rest) (lead : isLead x = true) : rest.head? ≠ some '\ufeff' := by
  intro hmark
  obtain ⟨more, rfl⟩ := List.head?_eq_some_iff.1 hmark
  have hblank := Text.isBlank_mark
  have hone : leadLength (x :: '\ufeff' :: more) = 1 := by
    by_cases hx : x = '\ufeff'
    · subst hx
      simp [leadLength, Number.runLength, hblank]
    · simp only [isLead, hx, decide_false, Bool.or_false] at lead
      simp [leadLength, Number.runLength, hblank, hx, lead]
  have hrest : (c.skip (leadLength c.rest)).rest = '\ufeff' :: more := by
    rw [h, hone, Cursor.skip, Cursor.skip, Cursor.rest_advance h]
  rw [ofCursor_of_rest_cons hrest] at clean
  exact faults_ofText_mark _ _ (List.map_eq_nil_iff.1 (List.append_eq_nil_iff.1 clean).1)

/-- What stands before the next piece of a sound stream is passed. -/
theorem reads_lead {c : Cursor} (clean : (ofCursor c).errors = []) :
    Reads c (c.skip (leadLength c.rest)) [] := by
  generalize hn : leadLength c.rest = n
  induction n generalizing c with
  | zero => exact .done c
  | succ n ih =>
      cases hrest : c.rest with
      | nil =>
          rw [hrest] at hn
          cases hn
      | cons x rest =>
          rw [hrest] at hn
          cases hlead : isLead x with
          | false =>
              rw [leadLength_of_plain hlead] at hn
              cases hn
          | true =>
              have next := head?_ne_mark clean hrest hlead
              rw [leadLength_of_lead hlead next] at hn
              refine .lead hrest hlead next (ih ?_ ?_)
              · rw [← ofCursor_advance hrest hlead next]
                exact clean
              · rw [Cursor.rest_advance hrest]
                exact Nat.succ.inj hn

theorem drop_runLength (p : Char → Bool) (text : List Char) :
    text.drop (Number.runLength p text) = text.dropWhile p := by
  induction text with
  | nil => rfl
  | cons c rest ih =>
      unfold Number.runLength at ih ⊢
      rw [List.takeWhile_cons, List.dropWhile_cons]
      split
      · exact ih
      · rfl

/-- Where the next piece of a sound stream starts. -/
theorem sound_of_clean {c : Cursor} (clean : (ofCursor c).errors = []) {first : Char} {rest : List Char}
    (h : (c.skip (leadLength c.rest)).rest = first :: rest) : Sound (c.skip (leadLength c.rest)) := by
  have hclean := clean
  rw [ofCursor_of_rest_cons h] at hclean
  have hfaults := List.map_eq_nil_iff.1 (List.append_eq_nil_iff.1 hclean).1
  refine ⟨⟨first, rest, h, ?_⟩, by rw [pieceAt_of_rest h]; exact hfaults⟩
  have hmark : first ≠ '\ufeff' := by
    rintro rfl
    exact faults_ofText_mark _ _ hfaults
  have hblank : Text.isBlank first = false := by
    rw [Cursor.rest_skip, leadLength, ← List.drop_drop, drop_runLength] at h
    have hhead := List.head?_dropWhile_not Text.isBlank
      (c.rest.drop (if c.rest.head? = some '\ufeff' then 1 else 0))
    rw [h] at hhead
    exact hhead
  simp [isLead, hmark, hblank]

/-- The piece with the next token of a sound stream is reached without passing other tokens. -/
theorem reads_of_tokens {c : Cursor} (clean : (ofCursor c).errors = []) {pre post : List Token}
    {t : Token} (htokens : (ofCursor c).tokens = pre ++ t :: post) :
    ∃ d, Reads c d pre ∧ Sound d ∧ tokensAt d = [t] ∧
      ofCursor (d.skip (pieceAt d).count) = ⟨post, [], (ofCursor c).stop⟩ := by
  cases h : (c.skip (leadLength c.rest)).rest with
  | nil =>
      rw [ofCursor_of_rest_nil h] at htokens
      simp at htokens
  | cons first rest =>
      have hlead := reads_lead clean
      have sound := sound_of_clean clean h
      have hlt : ((c.skip (leadLength c.rest)).skip
          (pieceAt (c.skip (leadLength c.rest))).count).rest.length < c.rest.length := by
        have hpos := count_pieceAt_pos h
        rw [Cursor.rest_skip] at h
        have hlength := congrArg List.length h
        rw [Cursor.rest_skip, Cursor.rest_skip, List.length_drop]
        rw [List.length_cons] at hlength
        have hle : (c.rest.drop (leadLength c.rest)).length ≤ c.rest.length := by
          rw [List.length_drop]
          exact Nat.sub_le _ _
        omega
      have hsplit : ofCursor c = ofCursor (c.skip (leadLength c.rest)) := by
        have := ofCursor_of_reads hlead
        rw [this, List.nil_append]
      rw [hsplit, ofCursor_of_sound sound] at htokens clean ⊢
      dsimp only at htokens clean ⊢
      generalize c.skip (leadLength c.rest) = d at hlead sound htokens clean hlt ⊢
      have hafter : ofCursor (d.skip (pieceAt d).count) =
          ⟨(ofCursor (d.skip (pieceAt d).count)).tokens, [],
            (ofCursor (d.skip (pieceAt d).count)).stop⟩ := by
        rw [← clean]
      have hskip : ∀ {pre'}, Reads d (d.skip (pieceAt d).count) pre' →
          Reads c (d.skip (pieceAt d).count) pre' :=
        fun hreads => hlead.trans hreads
      have hone : Reads d (d.skip (pieceAt d).count) (tokensAt d) := by
        have := Reads.piece sound (.done _)
        rwa [List.append_nil] at this
      rcases hlist : tokensAt d with _ | ⟨t', _ | ⟨t'', more⟩⟩
      · rw [hlist] at htokens hone
        obtain ⟨e, hreads, hrest⟩ := reads_of_tokens clean htokens
        exact ⟨e, (hskip hone).trans hreads, hrest⟩
      · rw [hlist] at htokens hone
        cases pre with
        | nil =>
            simp only [List.cons_append, List.nil_append, List.cons.injEq] at htokens
            obtain ⟨rfl, rfl⟩ := htokens
            exact ⟨d, hlead, sound, hlist, hafter⟩
        | cons t'' pre =>
            simp only [List.cons_append, List.nil_append, List.cons.injEq] at htokens
            obtain ⟨rfl, htokens⟩ := htokens
            obtain ⟨e, hreads, hrest⟩ := reads_of_tokens clean htokens
            exact ⟨e, (hskip hone).trans hreads, hrest⟩
      · have hlength : (tokensAt d).length ≤ 1 := by
          unfold tokensAt
          cases (pieceAt d).kind? <;> simp
        rw [hlist] at hlength
        simp at hlength
termination_by c.rest.length

/-! ### Copies of a stretch -/

/-- What is known of a stretch where two cursors stand before it. -/
def Agree (c d : Cursor) (a : List Char) : Prop :=
  d.lineIsBlank = c.lineIsBlank ∨ ∃ first rest, a = first :: rest ∧ isLead first = false ∧ first ≠ '#'

/-- The last token of a stretch is the end of it. -/
def EndsAt (c' : Cursor) (toks : List Token) : Prop :=
  ∃ before t, toks = before ++ [t] ∧ t.span.stop = c'.position.offset

theorem offset_tokenAt (c : Cursor) (n : Nat) (kind : TokenKind) :
    (tokenAt c n kind).span.offset = c.position.offset := rfl

theorem length_tokenAt (c : Cursor) (n : Nat) (kind : TokenKind) :
    (tokenAt c n kind).span.length = Text.byteLength (c.rest.take n) := by
  change (c.skip n).position.offset - c.position.offset = _
  rw [Cursor.position_skip, Position.offset_after, Nat.add_sub_cancel_left]

theorem stop_tokenAt (c : Cursor) (n : Nat) (kind : TokenKind) :
    (tokenAt c n kind).span.stop = (c.skip n).position.offset := by
  rw [Span.stop, offset_tokenAt, length_tokenAt, Cursor.position_skip, Position.offset_after]

theorem seam_of_append {w a v : List Char} (seam : Seam (w ++ a) v) : Seam a v := by
  refine seam.imp_left fun hlast => ?_
  cases a with
  | nil => rfl
  | cons x rest =>
      rw [List.getLast?_append, List.getLast?_eq_some_getLast (List.cons_ne_nil x rest)] at hlast
      rw [List.getLast?_eq_some_getLast (List.cons_ne_nil x rest)]
      exact hlast

theorem byteLength_pos {a : List Char} (h : a ≠ []) : 0 < Text.byteLength a := by
  cases a with
  | nil => exact absurd rfl h
  | cons x rest =>
      rw [Text.byteLength]
      exact Nat.lt_of_lt_of_le x.utf8Size_pos (Nat.le_add_right _ _)

/-- A stretch that ends before a stop is read there as it is here. -/
theorem Reads.moved {c c' : Cursor} {toks : List Token} (h : Reads c c' toks) :
    ∀ {a v v' : List Char} {d : Cursor}, c.rest = a ++ v → c'.rest = v → d.rest = a ++ v' →
      Stops v' → Seam a v → Agree c d a → Piece.LineMayEnd v v' ∨ EndsAt c' toks →
        ∃ toks', Reads d (d.skip a.length) toks' ∧
          List.Forall₂ (Token.Moved c.position.offset d.position.offset) toks toks' := by
  induction h with
  | done c =>
      intro a v v' d hc hc' hd stop seam agree ends
      obtain rfl : a = [] := by
        rw [hc'] at hc
        simpa using hc
      exact ⟨[], .done d, .nil⟩
  | @lead c c' toks x rest at_ lead next later ih =>
      intro a v v' d hc hc' hd stop seam agree ends
      obtain ⟨a', ha', -⟩ := later.skip
      rw [Cursor.rest_advance at_, hc'] at ha'
      obtain rfl : a = x :: a' := by
        rw [at_, ha', ← List.cons_append] at hc
        exact (List.append_cancel_right hc).symm
      have hflag : d.lineIsBlank = c.lineIsBlank := by
        rcases agree with hsame | ⟨first, more, heq, hplain, -⟩
        · exact hsame
        · rw [(List.cons.inj heq).1, hplain] at lead
          cases lead
      rw [List.cons_append] at hd
      have hadvance : d.advance.lineIsBlank = c.advance.lineIsBlank := by
        rw [Cursor.advance_of_rest hd, Cursor.advance_of_rest at_, hflag]
      have hoffset : ∀ {e : Cursor} {w}, e.rest = x :: w →
          e.advance.position.offset = e.position.offset + x.utf8Size := by
        intro e w he
        rw [Cursor.advance_of_rest he]
        exact Position.offset_after e.position [x]
      obtain ⟨toks', hreads, hmoved⟩ := ih (d := d.advance) (Cursor.rest_advance at_ ▸ ha') hc'
        (Cursor.rest_advance hd) stop (seam_of_append (w := [x]) seam) (.inl hadvance) ends
      refine ⟨toks', .lead hd lead ?_ hreads, hmoved.imp fun t t' ht => ?_⟩
      · cases a' with
        | nil => exact stop.head_ne (by decide)
        | cons y more =>
            rw [ha'] at next
            exact next
      · rw [hoffset at_, hoffset hd] at ht
        exact ht.of_add
  | @piece c c' toks sound later ih =>
      intro a v v' d hc hc' hd stop seam agree ends
      obtain ⟨a', ha', hend⟩ := later.skip
      rw [hc', Cursor.rest_skip] at ha'
      obtain ⟨⟨first, rest, hcons, hplain⟩, hfaults⟩ := sound
      have hpos := count_pieceAt_pos hcons
      have hle : (pieceAt c).count ≤ c.rest.length := by
        rw [pieceAt_of_rest hcons] at hfaults ⊢
        rw [hcons]
        exact Piece.ofText_le hfaults
      generalize hn : (pieceAt c).count = n at ha' hpos hle later ih hend
      -- the characters of the piece, and what is left of the stretch
      obtain ⟨w, hw⟩ : ∃ w, c.rest.take n = first :: w := by
        rw [hcons]
        obtain ⟨m, rfl⟩ := Nat.exists_eq_add_one_of_ne_zero (Nat.ne_of_gt hpos)
        exact ⟨rest.take m, List.take_succ_cons⟩
      have hlength : w.length + 1 = n := by
        have := congrArg List.length hw
        rw [List.length_take, Nat.min_eq_left hle] at this
        exact this.symm
      obtain rfl : a = first :: w ++ a' := by
        rw [← List.take_append_drop n c.rest, hw, ha', ← List.append_assoc] at hc
        exact (List.append_cancel_right hc).symm
      have hn₁ := hn
      -- what is left of the stretch is nothing, or ends as the stretch does
      have hempty : a' = [] ∨ a' ≠ [] ∧ (Piece.LineMayEnd v v' ∨ EndsAt c' toks) := by
        refine (Classical.em (a' = [])).imp_right fun hne => ⟨hne, ends.imp_right ?_⟩
        rintro ⟨before, t, heq, hstop⟩
        rcases List.eq_nil_or_concat toks with rfl | ⟨before', t', rfl⟩
        · exfalso
          rw [List.append_nil] at heq
          have hlast : t.span.stop = (c.skip n).position.offset := by
            unfold tokensAt at heq
            cases hkind : (pieceAt c).kind? with
            | none =>
                rw [hkind] at heq
                simp at heq
            | some kind =>
                rw [hkind, Option.map_some, Option.toList_some] at heq
                rw [← List.nil_append [tokenAt c (pieceAt c).count kind]] at heq
                have heq := List.append_inj_right' heq rfl
                rw [← (List.cons.inj heq).1, hn]
                exact stop_tokenAt c n kind
          have hpast := byteLength_pos hne
          have hafter := Cursor.offset_skip_length (c := c.skip n) (a := a') (v := v)
            (by rw [Cursor.rest_skip]; exact ha')
          rw [← hend, ← hstop, hlast] at hafter
          omega
        · refine ⟨before', t', List.concat_eq_append .., ?_⟩
          rw [List.concat_eq_append, ← List.append_assoc] at heq
          have heq := List.append_inj_right' heq rfl
          rw [(List.cons.inj heq).1]
          exact hstop
      have hc₁ : c.rest = first :: (w ++ a' ++ v) := by
        rw [hc]
        rfl
      have hd₁ : d.rest = first :: (w ++ a' ++ v') := by
        rw [hd]
        rfl
      have hpiece : pieceAt d = pieceAt c := by
        rw [pieceAt_of_rest hc₁] at hn hfaults ⊢
        rw [pieceAt_of_rest hd₁]
        refine Piece.ofText_append ?_ hfaults ?_ (fun hfirst => ?_) stop seam
        · rw [hn, List.length_append]
          omega
        · rw [← pieceAt_of_rest hc₁]
          rcases hempty with rfl | ⟨hne, -⟩
          · rcases ends with ends | ⟨before, t, heq, -⟩
            · exact .inr (.inr ends)
            · refine .inl ?_
              rw [later.eq_nil (by rw [Cursor.rest_skip, ha', hc', List.nil_append]),
                List.append_nil] at heq
              unfold tokensAt at heq
              cases hkind : (pieceAt c).kind? with
              | some kind => rfl
              | none =>
                  rw [hkind] at heq
                  simp at heq
          · refine .inr (.inl ?_)
            rw [hn₁, List.length_append]
            have := List.length_pos_iff.2 hne
            omega
        · rcases agree with hsame | ⟨first', more, heq, -, hne⟩
          · exact hsame
          · exact absurd ((List.cons.inj heq).1.symm.trans hfirst) hne
      have hblank : Text.isBlank first = false := by
        simp only [isLead, Bool.or_eq_false_iff] at hplain
        exact hplain.1
      have hflag : (d.skip n).lineIsBlank = (c.skip n).lineIsBlank := by
        rw [← hlength]
        exact Cursor.lineIsBlank_skip_of_plain (a := w) (v := a' ++ v)
          (by rw [hc₁, List.append_assoc]; rfl) (by rw [hd₁, List.append_assoc]; rfl) hblank
      have hrest : (d.skip n).rest = a' ++ v' := by
        rw [Cursor.rest_skip, hd₁, ← hlength, List.drop_succ_cons, List.append_assoc, List.drop_left]
      have htake : d.rest.take n = first :: w := by
        rw [hd₁, ← hlength, List.take_succ_cons, List.append_assoc, List.take_left]
      have hbytes : ∀ {e : Cursor}, e.rest.take n = first :: w →
          (e.skip n).position.offset = e.position.offset + Text.byteLength (first :: w) := by
        intro e he
        rw [Cursor.position_skip, Position.offset_after, he]
      have hlater : ∃ toks', Reads (d.skip n) ((d.skip n).skip a'.length) toks' ∧
          List.Forall₂ (Token.Moved (c.skip n).position.offset (d.skip n).position.offset) toks toks' := by
        rcases hempty with rfl | ⟨hne, hends⟩
        · rw [later.eq_nil (by rw [Cursor.rest_skip, ha', hc', List.nil_append])]
          exact ⟨[], .done _, .nil⟩
        · refine ih (by rw [Cursor.rest_skip]; exact ha') hc' hrest stop
            (seam_of_append (w := first :: w) seam) (.inl hflag) hends
      obtain ⟨toks', hreads, hmoved⟩ := hlater
      have hsound : Sound d := ⟨⟨first, _, hd₁, hplain⟩, by rw [hpiece]; exact hfaults⟩
      refine ⟨tokensAt d ++ toks', ?_, List.rel_append ?_ (hmoved.imp fun t t' ht => ?_)⟩
      · refine .piece hsound ?_
        rw [hpiece, hn₁, List.length_append, List.length_cons, hlength, Cursor.skip_add]
        exact hreads
      · unfold tokensAt
        rw [hpiece, hn₁]
        cases (pieceAt c).kind? with
        | none => exact .nil
        | some kind =>
            refine .cons ⟨?_, Nat.add_comm _ _, ?_⟩ .nil
            · simp only [Token.mark, tokenAt, htake, hw]
            · rw [length_tokenAt, length_tokenAt, htake, hw]
      · rw [hbytes hw, hbytes htake] at ht
        exact ht.of_add

end TokenStream

end Graft
