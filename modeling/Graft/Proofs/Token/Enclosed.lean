/-
Module: Graft.Proofs.Token.Enclosed
Purpose: The tokens of a text that stands between the braces of a class.
Main exports: TokenStream.reads_copy, TokenStream.twoClasses, TokenStream.map_mark_twoClasses

A text without errors ends where its last token or comment ends, and a new line goes on with neither.
So its tokens are the same when it stands on lines of its own inside a class.
-/
import Graft.Proofs.Token.Spells

namespace Graft

open Text (Stops)

namespace TokenStream

/-! ### Whole texts -/

/-- A stream without errors is read up to the end of its text. -/
theorem reads_to_end {c : Cursor} (clean : (ofCursor c).errors = []) :
    ∃ e, e.rest = [] ∧ Reads c e (ofCursor c).tokens := by
  have hlead := reads_lead clean
  have hsame : ofCursor c = ofCursor (c.skip (leadLength c.rest)) := by
    rw [ofCursor_of_reads hlead, List.nil_append]
  cases h : (c.skip (leadLength c.rest)).rest with
  | nil =>
      refine ⟨_, h, ?_⟩
      rw [ofCursor_of_rest_nil h]
      exact hlead
  | cons first rest =>
      have sound := sound_of_clean clean h
      have hpos := count_pieceAt_pos h
      rw [hsame, ofCursor_of_sound sound] at clean ⊢
      have hshorter : ((c.skip (leadLength c.rest)).skip
          (pieceAt (c.skip (leadLength c.rest))).count).rest.length < c.rest.length := by
        have hlength := congrArg List.length h
        rw [Cursor.rest_skip, List.length_drop, List.length_cons] at hlength
        rw [Cursor.rest_skip, List.length_drop, Cursor.rest_skip, List.length_drop]
        omega
      obtain ⟨e, hend, hreads⟩ := reads_to_end clean
      exact ⟨e, hend, hlead.trans (.piece sound hreads)⟩
termination_by c.rest.length

/-- A text without errors has the same tokens where it is copied to before a new line. -/
theorem reads_copy {c d : Cursor} {v : List Char} (clean : (ofCursor c).errors = [])
    (hd : d.rest = c.rest ++ '\n' :: v) (line : d.lineIsBlank = c.lineIsBlank) :
    ∃ toks, Reads d (d.skip c.rest.length) toks ∧
      toks.map Token.mark = (ofCursor c).tokens.map Token.mark := by
  obtain ⟨e, hend, hreads⟩ := reads_to_end clean
  have hstop : Stops ('\n' :: v) := by
    intro x hx
    obtain rfl : '\n' = x := by simpa using hx
    exact .inr (.inl rfl)
  obtain ⟨toks, hreads', hmoved⟩ := hreads.moved (v := []) (List.append_nil _).symm hend hd hstop
    (.inr rfl) (.inl line) (.inl (.inl rfl))
  exact ⟨toks, hreads', Token.map_mark_of_moved hmoved⟩

/-- A byte order mark at the start of a line has no token. -/
theorem tokens_ofCursor_mark {c : Cursor} {rest : List Char} (h : c.rest = '\n' :: '\ufeff' :: rest) :
    (ofCursor c).tokens = (ofCursor c.advance.advance).tokens := by
  have hlead : leadLength c.rest = 1 := by
    have hline : Text.isBlank '\n' = true := by decide
    simp [h, leadLength, Number.runLength, hline, Text.isBlank_mark]
  have hskip : c.skip (leadLength c.rest) = c.advance := by
    rw [hlead]
    rfl
  have hmark : c.advance.rest = '\ufeff' :: rest := Cursor.rest_advance h
  rw [ofCursor_of_rest_cons (by rw [hskip]; exact hmark), hskip, ofText_mark]
  rfl

/-! ### A text inside a class -/

/-- A class with a text for its body, and another class behind it. -/
def twoClasses (body : String) : String := "class A \x7b\n" ++ body ++ "\n\x7d\nclass B \x7b \x7d"

/-- The tokens before the body. -/
def opening : List (TokenKind × String) :=
  [(.classKeyword, "class"), (.identifier, "A"), (.leftBrace, "\x7b")]

/-- The tokens behind the body. -/
def closing : List (TokenKind × String) :=
  [(.rightBrace, "\x7d"), (.classKeyword, "class"), (.identifier, "B"), (.leftBrace, "\x7b"),
   (.rightBrace, "\x7d")]

variable {W : List Char}

/-- A word spells itself, letter by letter. -/
theorem spells_letters {first : Char} {rest v : List Char} (hfirst : Text.isIdentStart first = true)
    (hrest : rest.all Text.isIdentContinue = true)
    (stop : v.head?.any Text.isIdentContinue = false) :
    Spells W (first :: rest) v
      (Marked [((Keyword.kind? (String.ofList (first :: rest))).getD .identifier,
        String.ofList (first :: rest))]) := by
  have h := spells_word (W := W) (v := v) (w := String.ofList (first :: rest))
    ⟨first, rest, String.toList_ofList, hfirst, List.all_eq_true.1 hrest⟩ stop
  rwa [String.toList_ofList] at h

/-- A blank or a new line spells nothing before a character that is no byte order mark. -/
theorem spells_blank {x c : Char} {v : List Char} (hx : x = ' ' ∨ x = '\n') (hc : c ≠ '\ufeff') :
    Spells W [x] (c :: v) (Marked []) := by
  refine spells_lead ?_ (by simpa using hc)
  rcases hx with rfl | rfl <;> decide

/-- The head of a class up to its opening brace. -/
theorem spells_classHead {x : Char} {v : List Char} (letter : x = 'A' ∨ x = 'B') :
    Spells W ['c', 'l', 'a', 's', 's', ' ', x, ' ', '{'] v
      (Marked [(.classKeyword, "class"), (.identifier, String.singleton x), (.leftBrace, "\x7b")]) := by
  have hstop : Text.isIdentContinue ' ' = false := by decide
  have hclass : Spells W ['c', 'l', 'a', 's', 's'] ([' ', x, ' ', '{'] ++ v)
      (Marked [(.classKeyword, "class")]) := spells_letters (by decide) (by decide) hstop
  have hname : Spells W [x] ([' ', '{'] ++ v) (Marked [(.identifier, String.singleton x)]) := by
    rcases letter with rfl | rfl <;> exact spells_letters (by decide) (by decide) hstop
  have hbrace : Spells W ['{'] v (Marked [(.leftBrace, "\x7b")]) := spells_mark (by simp)
  have hletter : x ≠ '\ufeff' := by rcases letter with rfl | rfl <;> decide
  refine hclass.marked (n := [(.identifier, String.singleton x), (.leftBrace, "\x7b")]) ?_
  refine (spells_blank (.inl rfl) hletter).marked (m := []) (b := [x, ' ', '{']) ?_
  refine hname.marked (n := [(.leftBrace, "\x7b")]) ?_
  exact (spells_blank (.inl rfl) (by decide)).marked (m := []) hbrace

/-- What stands behind the body. -/
theorem spells_closing :
    Spells W ['\n', '}', '\n', 'c', 'l', 'a', 's', 's', ' ', 'B', ' ', '{', ' ', '}'] []
      (Marked closing) := by
  have hbrace : ∀ {v : List Char}, Spells W ['}'] v (Marked [(.rightBrace, "\x7d")]) :=
    spells_mark (by simp)
  have hlast : Spells W [' ', '}'] [] (Marked [(.rightBrace, "\x7d")]) :=
    (spells_blank (c := '}') (.inl rfl) (by decide)).marked (m := []) (b := ['}']) hbrace
  have hhead := (spells_classHead (.inr rfl)).marked hlast
  have hline : ∀ {x c : Char} {b : List Char} {m : List (TokenKind × String)}, x = '\n' → c ≠ '\ufeff' →
      Spells W (c :: b) [] (Marked m) → Spells W (x :: c :: b) [] (Marked m) := fun hx hc h =>
    (spells_blank (.inr hx) hc).marked (m := []) h
  exact hline rfl (by decide) (hbrace.marked (a := ['}']) (hline rfl (by decide) hhead))

theorem toList_twoClasses (body : String) : (twoClasses body).toList =
    ['c', 'l', 'a', 's', 's', ' ', 'A', ' ', '{'] ++ '\n' :: (body.toList ++
      ['\n', '}', '\n', 'c', 'l', 'a', 's', 's', ' ', 'B', ' ', '{', ' ', '}']) := by
  have hopening : "class A \x7b\n".toList =
      ['c', 'l', 'a', 's', 's', ' ', 'A', ' ', '{', '\n'] := rfl
  have hclosing : "\n\x7d\nclass B \x7b \x7d".toList =
      ['\n', '}', '\n', 'c', 'l', 'a', 's', 's', ' ', 'B', ' ', '{', ' ', '}'] := rfl
  rw [twoClasses, String.toList_append, String.toList_append, hopening, hclosing]
  simp

/-- Where the tokens of the body start: behind the new line, and behind a byte order mark that the body
may start with. -/
theorem exists_bodyCursor {body : List Char} (clean : (ofCursor (.ofText body)).errors = []) {c : Cursor}
    {v : List Char} (hc : c.rest = '\n' :: (body ++ v)) (hv : v.head? ≠ some '\ufeff') :
    ∃ b n, ofCursor b = ofCursor (.ofText body) ∧ (ofCursor c).tokens = (ofCursor (c.skip n)).tokens ∧
      (c.skip n).rest = b.rest ++ v ∧ (c.skip n).lineIsBlank = b.lineIsBlank := by
  have hadvance := Cursor.advance_of_rest hc
  by_cases hmark : body.head? = some '\ufeff'
  · obtain ⟨rest, rfl⟩ := List.head?_eq_some_iff.1 hmark
    have hrest : (Cursor.ofText ('\ufeff' :: rest)).rest = '\ufeff' :: rest := rfl
    have hlead : isLead '\ufeff' = true := by simp [isLead]
    have hbody := ofCursor_advance hrest hlead (head?_ne_mark clean hrest hlead)
    refine ⟨_, 2, hbody.symm, tokens_ofCursor_mark hc, ?_, ?_⟩
    · rw [Cursor.rest_skip, hc]
      rfl
    · rw [Cursor.skip, Cursor.skip, Cursor.skip, hadvance]
      simp [Cursor.advance, Cursor.ofText]
  · have hnext : (body ++ v).head? ≠ some '\ufeff' := by
      cases body with
      | nil => exact hv
      | cons x rest => exact hmark
    refine ⟨.ofText body, 1, rfl, ?_, ?_, ?_⟩
    · rw [Cursor.skip, Cursor.skip, ofCursor_advance hc (by decide) hnext]
    · rw [Cursor.rest_skip, hc]
      rfl
    · rw [Cursor.skip, Cursor.skip, hadvance]
      rfl

/-- A body without errors has the same tokens inside a class. -/
theorem map_mark_twoClasses (body : String) (clean : (ofText body).errors = []) :
    (ofText (twoClasses body)).tokens.map Token.mark =
      opening ++ ((ofText body).tokens.map Token.mark ++ closing) := by
  have htext := toList_twoClasses body
  rw [ofText]
  generalize (twoClasses body).toList = W at htext ⊢
  obtain ⟨before, hbefore, hopening⟩ := spells_classHead (W := W) (.inl rfl) 0 htext
  obtain ⟨b, n, hbody, htokens, hrest, hline⟩ := exists_bodyCursor clean
    (c := (Cursor.ofText W).skip 9) (by rw [Cursor.rest_skip]; exact congrArg (List.drop 9) htext)
    (by decide)
  obtain ⟨inside, hinside, hsame⟩ := reads_copy (hbody ▸ clean) hrest hline
  have hlast := Cursor.rest_skip_length hrest
  simp only [← Cursor.skip_add, Nat.add_assoc] at htokens hinside hlast
  obtain ⟨behind, hbehind, hclosing⟩ := spells_closing (W := W) _ hlast
  have hend := Cursor.rest_skip_length (v := []) (hlast.trans (List.append_nil _).symm)
  simp only [← Cursor.skip_add, Nat.add_assoc] at hbehind hend
  have hnone := ofCursor_of_rest_nil (by rw [Cursor.skip_of_rest_nil hend]; exact hend)
  have hall : (ofCursor (.ofText W)).tokens = before ++ (inside ++ behind) := by
    rw [ofCursor_of_reads (c := .ofText W) hbefore]
    change before ++ (ofCursor ((Cursor.ofText W).skip 9)).tokens = _
    rw [htokens, ofCursor_of_reads (hinside.trans hbehind), hnone, List.append_nil]
  rw [hall, List.map_append, List.map_append, hopening, hsame, hclosing, hbody]
  rfl

end TokenStream

end Graft
