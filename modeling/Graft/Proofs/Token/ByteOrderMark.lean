/-
Module: Graft.Proofs.Token.ByteOrderMark
Purpose: What a byte order mark in front of a source changes.
Main exports: TokenStream.behindMark, TokenStream.ofCursor_behindMark, Text.StartsDirective,
  TokenStream.ofText_behindMark_iff

A byte order mark is passed like a blank, and what follows it is read as without it, three bytes further on.
But it is no blank for the question whether a line is blank so far.  So a directive in the first line is not
one behind a mark.
-/
import Graft.Proofs.Token.Reads

namespace Graft

/-! ### Places behind a mark -/

/-- A place of a source when a byte order mark stands in front of it: three bytes further on, and in the
first line also three columns. -/
def Position.behindMark (p : Position) : Position :=
  ⟨p.offset + 3, p.line, if p.line = 1 then p.column + 3 else p.column⟩

/-- A stretch of a source when a byte order mark stands in front of it. -/
def Span.behindMark (s : Span) : Span :=
  ⟨s.offset + 3, s.line, if s.line = 1 then s.column + 3 else s.column, s.length⟩

/-- A token of a source when a byte order mark stands in front of it. -/
def Token.behindMark (t : Token) : Token := { t with span := t.span.behindMark }

/-- An error of a source when a byte order mark stands in front of it. -/
def LexError.behindMark (e : LexError) : LexError := { e with span := e.span.behindMark }

/-- The same tokens and errors behind a byte order mark. -/
def TokenStream.behindMark (stream : TokenStream) : TokenStream :=
  ⟨stream.tokens.map Token.behindMark, stream.errors.map LexError.behindMark, stream.stop.behindMark⟩

/-- A cursor behind a byte order mark. -/
def Cursor.behindMark (c : Cursor) : Cursor := { c with position := c.position.behindMark }

namespace Position

variable {p q : Position}

theorem line_le_next (p : Position) (c : Char) : p.line ≤ (p.next c).line := by
  unfold next
  split
  · exact Nat.le_succ _
  · exact Nat.le_refl _

/-- One more character leads to the same place on both sides of the mark. -/
theorem next_behindMark (h : 1 ≤ p.line) (c : Char) : (p.next c).behindMark = p.behindMark.next c := by
  unfold next behindMark
  by_cases hc : c = '\n'
  · have hline : p.line + 1 ≠ 1 := by omega
    simp only [hc, if_true, hline, if_false, Nat.add_right_comm]
  · simp only [hc, if_false, Position.mk.injEq, true_and]
    refine ⟨by omega, ?_⟩
    split <;> omega

theorem between_behindMark (p q : Position) :
    (Span.between p q).behindMark = .between p.behindMark q.behindMark := by
  unfold Span.between Span.behindMark behindMark
  dsimp only
  rw [Nat.add_sub_add_right]

end Position

namespace Cursor

variable {c d : Cursor}

theorem line_le_skip (n : Nat) (c : Cursor) : c.position.line ≤ (c.skip n).position.line := by
  induction n generalizing c with
  | zero => exact Nat.le_refl _
  | succ n ih =>
      refine Nat.le_trans ?_ (ih c.advance)
      unfold advance
      split
      · exact Nat.le_refl _
      · exact Position.line_le_next _ _

theorem skip_behindMark (h : 1 ≤ c.position.line) (n : Nat) :
    (c.skip n).behindMark = c.behindMark.skip n := by
  induction n generalizing c with
  | zero => rfl
  | succ n ih =>
      have hadvance : c.advance.behindMark = c.behindMark.advance := by
        cases hrest : c.rest with
        | nil =>
            unfold advance behindMark
            simp [hrest]
        | cons x rest =>
            rw [advance_of_rest hrest, advance_of_rest (c := c.behindMark) hrest]
            unfold behindMark
            rw [Position.next_behindMark h]
      have hline : 1 ≤ c.advance.position.line := Nat.le_trans h (line_le_skip 1 c)
      rw [skip, skip, ih hline, hadvance]

/-- Behind a character that is no blank, or that starts a line, it does not matter whether
the line was blank before. -/
theorem skip_eq_of_rest (hrest : d.rest = c.rest) (hposition : d.position = c.position) {n : Nat}
    (h : ∃ x ∈ c.rest.take n, x = '\n' ∨ Text.isBlank x = false) : d.skip n = c.skip n := by
  induction n generalizing c d with
  | zero =>
      obtain ⟨x, hx, -⟩ := h
      cases hx
  | succ n ih =>
      cases hcons : c.rest with
      | nil =>
          obtain ⟨x, hx, -⟩ := h
          rw [hcons] at hx
          cases hx
      | cons y rest =>
          have hc := advance_of_rest hcons
          have hd := advance_of_rest (hrest.trans hcons)
          rw [hposition] at hd
          rw [skip, skip]
          by_cases hy : y = '\n' ∨ Text.isBlank y = false
          · have hblank : ∀ b, (decide (y = '\n') || (b && Text.isBlank y)) = decide (y = '\n') := by
              intro b
              rcases hy with rfl | hy
              · rfl
              · rw [hy, Bool.and_false, Bool.or_false]
            rw [hc, hd, hblank, hblank]
          · refine ih (by rw [hc, hd]) (by rw [hc, hd]) ?_
            obtain ⟨x, hx, hstops⟩ := h
            rw [hcons, List.take_succ_cons] at hx
            rcases List.mem_cons.1 hx with rfl | hx
            · exact absurd hstops hy
            · rw [hc]
              exact ⟨x, hx, hstops⟩

/-- Blanks within a line leave open what stands before them. -/
theorem lineIsBlank_skip_blanks {blanks v : List Char} (hrest : c.rest = blanks ++ v)
    (hblanks : ∀ x ∈ blanks, Text.isBlank x = true ∧ x ≠ '\n') :
    (c.skip blanks.length).lineIsBlank = c.lineIsBlank := by
  induction blanks generalizing c with
  | nil => rfl
  | cons x rest ih =>
      obtain ⟨hblank, hline⟩ := hblanks x List.mem_cons_self
      have hadvance := advance_of_rest hrest
      have hlater := ih (rest_advance hrest) fun y hy => hblanks y (List.mem_cons_of_mem _ hy)
      rw [List.length_cons, skip, hlater, hadvance]
      simp [hblank, hline]

end Cursor

namespace TokenStream

variable {c d : Cursor}

theorem tokenAt_behindMark (h : 1 ≤ c.position.line) (count : Nat) (kind : TokenKind) :
    (tokenAt c count kind).behindMark = tokenAt c.behindMark count kind := by
  unfold tokenAt Token.behindMark Cursor.spanOf
  rw [Position.between_behindMark, ← Cursor.skip_behindMark h]
  rfl

theorem errorAt_behindMark (h : 1 ≤ c.position.line) (fault : Fault) :
    (errorAt c fault).behindMark = errorAt c.behindMark fault := by
  unfold errorAt LexError.behindMark
  rw [Position.between_behindMark, ← Cursor.skip_behindMark h, ← Cursor.skip_behindMark h]
  rfl

/-- What is read from a cursor on does not depend on its place. -/
theorem ofCursor_behindMark (c : Cursor) (h : 1 ≤ c.position.line) :
    ofCursor c.behindMark = (ofCursor c).behindMark := by
  induction c using ofCursor.induct with
  | case1 before c hrest =>
      have hskip : before.behindMark.skip (leadLength before.rest) = c.behindMark :=
        (Cursor.skip_behindMark h _).symm
      have hend : (before.behindMark.skip (leadLength before.behindMark.rest)).rest = [] := by
        change (before.behindMark.skip (leadLength before.rest)).rest = []
        rw [hskip]
        exact hrest
      rw [ofCursor_of_rest_nil hrest, ofCursor_of_rest_nil hend]
      change TokenStream.mk [] [] (before.behindMark.skip (leadLength before.rest)).position = _
      rw [hskip]
      rfl
  | case2 before c first rest hrest piece ih =>
      have hskip : before.behindMark.skip (leadLength before.rest) = c.behindMark :=
        (Cursor.skip_behindMark h _).symm
      have hline : 1 ≤ c.position.line := Nat.le_trans h (Cursor.line_le_skip _ before)
      have hmore : (before.behindMark.skip (leadLength before.behindMark.rest)).rest = first :: rest := by
        change (before.behindMark.skip (leadLength before.rest)).rest = first :: rest
        rw [hskip]
        exact hrest
      have hlater := ih (Nat.le_trans hline (Cursor.line_le_skip piece.count c))
      have hbehind := ofCursor_of_rest_cons hmore
      dsimp only at hbehind
      rw [show before.behindMark.skip (leadLength before.behindMark.rest) = c.behindMark
        from hskip] at hbehind
      rw [ofCursor_of_rest_cons hrest, hbehind]
      change TokenStream.mk ((piece.kind?.map (tokenAt c.behindMark piece.count)).toList ++
        (ofCursor (c.behindMark.skip piece.count)).tokens) (piece.faults.map (errorAt c.behindMark) ++
          (ofCursor (c.behindMark.skip piece.count)).errors)
          (ofCursor (c.behindMark.skip piece.count)).stop = _
      rw [← Cursor.skip_behindMark hline, hlater]
      have htokens : (piece.kind?.map (tokenAt c.behindMark piece.count)).toList =
          (piece.kind?.map (tokenAt c piece.count)).toList.map Token.behindMark := by
        cases piece.kind? with
        | none => rfl
        | some kind => exact congrArg (fun t => [t]) (tokenAt_behindMark hline piece.count kind).symm
      have herrors : piece.faults.map (errorAt c.behindMark) =
          (piece.faults.map (errorAt c)).map LexError.behindMark := by
        rw [List.map_map]
        exact List.map_congr_left fun fault _ => (errorAt_behindMark hline fault).symm
      rw [htokens, herrors]
      unfold behindMark
      rw [List.map_append, List.map_append]

/-! ### Directives -/

/-- An error lies behind the cursor that it is found from. -/
theorem le_offset_of_mem_errors (c : Cursor) :
    ∀ e ∈ (ofCursor c).errors, c.position.offset ≤ e.span.offset := by
  have hskip : ∀ (c : Cursor) (n : Nat), c.position.offset ≤ (c.skip n).position.offset := by
    intro c n
    rw [Cursor.position_skip, Position.offset_after]
    exact Nat.le_add_right _ _
  induction c using ofCursor.induct with
  | case1 before c hrest =>
      rw [ofCursor_of_rest_nil hrest]
      exact fun e he => absurd he List.not_mem_nil
  | case2 before c first rest hrest piece ih =>
      intro e he
      rw [ofCursor_of_rest_cons hrest] at he
      refine Nat.le_trans (hskip before (leadLength before.rest)) ?_
      rcases List.mem_append.1 he with he | he
      · obtain ⟨fault, -, rfl⟩ := List.mem_map.1 he
        exact hskip c fault.first
      · exact Nat.le_trans (hskip c piece.count) (ih e he)

end TokenStream

/-- In its first line a text has a `#` behind nothing but blanks. -/
def Text.StartsDirective (text : List Char) : Prop :=
  ∃ blanks rest, text = blanks ++ '#' :: rest ∧ ∀ c ∈ blanks, isBlank c = true ∧ c ≠ '\n'

/-- The text starts with blanks that do not end its line, and `#` is the first character that is no blank. -/
theorem Text.startsDirective_iff {text : List Char} : StartsDirective text ↔
    '\n' ∉ text.takeWhile isBlank ∧ (text.dropWhile isBlank).head? = some '#' := by
  constructor
  · rintro ⟨blanks, rest, rfl, hblanks⟩
    have hblank : ∀ c ∈ blanks, isBlank c = true := fun c hc => (hblanks c hc).1
    have hhash : ¬isBlank '#' = true := by decide
    rw [List.takeWhile_append_of_pos hblank, List.takeWhile_cons_of_neg hhash, List.append_nil,
      List.dropWhile_append_of_pos hblank, List.dropWhile_cons_of_neg hhash]
    exact ⟨fun hline => (hblanks _ hline).2 rfl, rfl⟩
  · rintro ⟨hline, hhash⟩
    obtain ⟨rest, hrest⟩ := List.head?_eq_some_iff.1 hhash
    refine ⟨text.takeWhile isBlank, rest, ?_, fun c hc => ⟨List.mem_takeWhile_imp hc, ?_⟩⟩
    · rw [← hrest, List.takeWhile_append_dropWhile]
    · rintro rfl
      exact hline hc

instance (text : List Char) : Decidable (Text.StartsDirective text) :=
  decidable_of_iff' _ Text.startsDirective_iff

namespace Piece

/-- Only for `#` it matters what stands before it on its line. -/
theorem ofText_eq_of_ne {first : Char} (h : first ≠ '#') (b b' : Bool) (rest : List Char) :
    ofText b first rest = ofText b' first rest := by
  simp [ofText, h]

theorem ofText_hash (rest : List Char) : ofText false '#' rest = .broken (.unexpectedChar '#') 1 := by
  have hstart : Text.isIdentStart '#' = false := by decide
  have hstarts : Number.starts ('#' :: rest) = false := rfl
  have hnone : Operator.match? ('#' :: rest) = none := rfl
  simp [ofText, scan, List.isPrefixOf, hstart, hstarts, hnone]

theorem ofText_directive (rest : List Char) : ofText true '#' rest = .line ('#' :: rest) := rfl

end Piece

namespace TokenStream

variable {text : List Char} {p : Position} {c d : Cursor}

theorem leadLength_eq (plain : text.head? ≠ some '\ufeff') :
    leadLength text = (text.takeWhile Text.isBlank).length := by
  simp [leadLength, plain, Number.runLength]

/-- Where the first piece of a text starts that no mark stands in front of. -/
theorem rest_skip_leadLength (plain : text.head? ≠ some '\ufeff') (b : Bool) :
    ((Cursor.mk text p b).skip (leadLength text)).rest = text.dropWhile Text.isBlank := by
  rw [Cursor.rest_skip, leadLength_eq plain]
  exact drop_runLength Text.isBlank text

/-- Where something stands before a directive on its line, its `#` is reported.  Where nothing does, no error
lies before the end of the directive. -/
theorem ofCursor_ne_of_startsDirective (plain : text.head? ≠ some '\ufeff') (h : Text.StartsDirective text) :
    ofCursor ⟨text, p, false⟩ ≠ ofCursor ⟨text, p, true⟩ := by
  obtain ⟨hline, hhash⟩ := Text.startsDirective_iff.1 h
  obtain ⟨rest, hdrop⟩ := List.head?_eq_some_iff.1 hhash
  have hrest : ∀ b, ((Cursor.mk text p b).skip (leadLength text)).rest = '#' :: rest := fun b => by
    rw [rest_skip_leadLength plain, hdrop]
  have hblank : ∀ b, ((Cursor.mk text p b).skip (leadLength text)).lineIsBlank = b := by
    intro b
    have hblanks : ∀ x ∈ text.takeWhile Text.isBlank, Text.isBlank x = true ∧ x ≠ '\n' := fun x hx =>
      ⟨List.mem_takeWhile_imp hx, fun h => hline (h ▸ hx)⟩
    rw [leadLength_eq plain]
    exact Cursor.lineIsBlank_skip_blanks (c := ⟨text, p, b⟩) List.takeWhile_append_dropWhile.symm hblanks
  have hreported := ofCursor_of_rest_cons (hrest false)
  have hpassed := ofCursor_of_rest_cons (hrest true)
  dsimp only at hreported hpassed
  rw [hblank, Piece.ofText_hash] at hreported
  rw [hblank, Piece.ofText_directive] at hpassed
  intro hsame
  rw [hreported, hpassed, TokenStream.mk.injEq] at hsame
  obtain ⟨-, herrors, -⟩ := hsame
  have hfirst : errorAt ((Cursor.mk text p false).skip (leadLength text)) ⟨.unexpectedChar '#', 0, 1⟩ ∈
      (Piece.broken (.unexpectedChar '#') 1).faults.map
      (errorAt ((Cursor.mk text p false).skip (leadLength text))) :=
    List.mem_singleton_self _
  have hmem := List.mem_append_left
    (ofCursor (((Cursor.mk text p false).skip (leadLength text)).skip
    (Piece.broken (.unexpectedChar '#') 1).count)).errors hfirst
  rw [herrors] at hmem
  have hle := le_offset_of_mem_errors _ _ hmem
  have hpos : 0 < Text.byteLength (('#' :: rest).take (Piece.line ('#' :: rest)).count) := by
    obtain ⟨n, hn⟩ := Nat.exists_eq_add_one_of_ne_zero (Nat.ne_of_gt (Piece.count_ofText_pos true '#' rest))
    rw [Piece.ofText_directive] at hn
    rw [hn, List.take_succ_cons]
    exact byteLength_pos (List.cons_ne_nil _ _)
  rw [Cursor.position_skip, hrest, Position.offset_after, Cursor.position_skip] at hle
  change _ ≤ ((Cursor.mk text p false).skip (leadLength text)).position.offset at hle
  rw [Cursor.position_skip] at hle
  dsimp only at hle
  omega

/-- Where a piece starts that is no blank, what is read does not depend on what
stands before it on its line. -/
theorem stream_congr {first : Char} {rest : List Char} (hrest : d.rest = c.rest)
    (hposition : d.position = c.position) (hcons : c.rest = first :: rest)
    (hblank : Text.isBlank first = false) (piece : Piece) (hpos : 0 < piece.count) :
    TokenStream.mk ((piece.kind?.map (tokenAt c piece.count)).toList ++
      (ofCursor (c.skip piece.count)).tokens)
      (piece.faults.map (errorAt c) ++ (ofCursor (c.skip piece.count)).errors)
        (ofCursor (c.skip piece.count)).stop =
    TokenStream.mk ((piece.kind?.map (tokenAt d piece.count)).toList ++
      (ofCursor (d.skip piece.count)).tokens)
      (piece.faults.map (errorAt d) ++ (ofCursor (d.skip piece.count)).errors)
        (ofCursor (d.skip piece.count)).stop := by
  have hskip : d.skip piece.count = c.skip piece.count := by
    refine Cursor.skip_eq_of_rest hrest hposition ⟨first, ?_, .inr hblank⟩
    obtain ⟨n, hn⟩ := Nat.exists_eq_add_one_of_ne_zero (Nat.ne_of_gt hpos)
    rw [hcons, hn, List.take_succ_cons]
    exact List.mem_cons_self
  have hplace : ∀ n, (d.skip n).position = (c.skip n).position := fun n => by
    rw [Cursor.position_skip, Cursor.position_skip, hrest, hposition]
  have htoken : tokenAt d piece.count = tokenAt c piece.count := by
    funext kind
    unfold tokenAt Cursor.spanOf
    rw [hrest, hposition, hskip]
  have herror : errorAt d = errorAt c := by
    funext fault
    unfold errorAt
    rw [hplace, hplace]
  rw [hskip, htoken, herror]

/-- Elsewhere it does not matter what stands before the first piece on its line. -/
theorem ofCursor_eq_of_not_startsDirective (plain : text.head? ≠ some '\ufeff')
    (h : ¬Text.StartsDirective text) :
    ofCursor ⟨text, p, false⟩ = ofCursor ⟨text, p, true⟩ := by
  have hrest := fun b => rest_skip_leadLength (p := p) plain b
  have hposition : ((Cursor.mk text p false).skip (leadLength text)).position =
      ((Cursor.mk text p true).skip (leadLength text)).position := by
    rw [Cursor.position_skip, Cursor.position_skip]
  cases hdrop : text.dropWhile Text.isBlank with
  | nil =>
      have hend := fun b => (hrest b).trans hdrop
      rw [ofCursor_of_rest_nil (hend false), ofCursor_of_rest_nil (hend true)]
      exact congrArg (TokenStream.mk [] []) hposition
  | cons first rest =>
      by_cases hline : '\n' ∈ text.takeWhile Text.isBlank
      · refine ofCursor_congr ?_
        change (Cursor.mk text p false).skip (leadLength text) =
          (Cursor.mk text p true).skip (leadLength text)
        refine Cursor.skip_eq_of_rest (c := ⟨text, p, true⟩) (d := ⟨text, p, false⟩) rfl rfl
          ⟨'\n', ?_, .inl rfl⟩
        change '\n' ∈ text.take (leadLength text)
        rw [leadLength_eq plain, ← List.prefix_iff_eq_take.1 (List.takeWhile_prefix _)]
        exact hline
      · have hfirst : first ≠ '#' := by
          rintro rfl
          exact h (Text.startsDirective_iff.2 ⟨hline, by rw [hdrop]; rfl⟩)
        have hblank : Text.isBlank first = false := by
          have hhead := List.head?_dropWhile_not Text.isBlank text
          rw [hdrop] at hhead
          exact hhead
        have hcons := fun b => (hrest b).trans hdrop
        have hread := ofCursor_of_rest_cons (hcons false)
        have hread' := ofCursor_of_rest_cons (hcons true)
        dsimp only at hread hread'
        rw [Piece.ofText_eq_of_ne hfirst _ true] at hread hread'
        rw [hread, hread']
        exact stream_congr ((hcons true).trans (hcons false).symm) hposition.symm (hcons false) hblank _
          (Piece.count_ofText_pos _ _ _)

/-- A byte order mark in front of a source changes nothing but the places, exactly if the source does not
have a directive in its first line. -/
theorem ofText_behindMark_iff (text : List Char) (plain : text.head? ≠ some '\ufeff') :
    ofText (.ofList ('\ufeff' :: text)) = (ofText (.ofList text)).behindMark ↔
    ¬Text.StartsDirective text := by
  have hmark : Text.isBlank '\ufeff' = false := by decide +kernel
  have hbehind : ofText (.ofList ('\ufeff' :: text)) =
      ofCursor ⟨text, Position.start.behindMark, false⟩ := by
    rw [ofText, String.toList_ofList]
    have hadvance := Cursor.advance_of_rest (c := .ofText ('\ufeff' :: text)) rfl
    rw [hmark, Bool.and_false] at hadvance
    rw [ofCursor_advance (c := .ofText ('\ufeff' :: text)) rfl (by simp [isLead]) plain, hadvance]
    rfl
  have hfront : (ofText (.ofList text)).behindMark = ofCursor ⟨text, Position.start.behindMark, true⟩ := by
    rw [ofText, String.toList_ofList, ← ofCursor_behindMark _ (Nat.le_refl 1)]
    rfl
  rw [hbehind, hfront]
  exact ⟨fun h hdirective => ofCursor_ne_of_startsDirective plain hdirective h,
    ofCursor_eq_of_not_startsDirective plain⟩

/-- A mark before a first line without a directive moves all places and changes nothing else; the directive
in the second line and the character beyond ASCII are no exception. -/
theorem ofText_behindMark_twoLines :
    "'é'\n#if A\nB".toList.head? ≠ some '\ufeff' ∧ ¬Text.StartsDirective "'é'\n#if A\nB".toList ∧
      ofText (.ofList ('\ufeff' :: "'é'\n#if A\nB".toList)) =
        (ofText (.ofList "'é'\n#if A\nB".toList)).behindMark := by
  have plain : "'é'\n#if A\nB".toList.head? ≠ some '\ufeff' := by decide
  have later : ¬Text.StartsDirective "'é'\n#if A\nB".toList := by decide
  exact ⟨plain, later, (ofText_behindMark_iff _ plain).2 later⟩

/-- A directive in the first line leaves nothing to read.  Behind a mark it leaves an error and two names. -/
theorem ofText_behindMark_directive :
    "#nullable enable".toList.head? ≠ some '\ufeff' ∧ ofText "#nullable enable" = ⟨[], [], ⟨16, 1, 17⟩⟩ ∧
      ofText "\ufeff#nullable enable" =
        ⟨[⟨.identifier, "nullable", ⟨4, 1, 5, 8⟩⟩, ⟨.identifier, "enable", ⟨13, 1, 14, 6⟩⟩],
          [⟨.unexpectedChar '#', ⟨3, 1, 4, 1⟩⟩], ⟨19, 1, 20⟩⟩ := by
  refine ⟨by decide, ?_, ?_⟩
  · decide +kernel
  · decide +kernel

end TokenStream

end Graft
