/-
Module: Graft.Proofs.Token.Relocated
Purpose: What a text is read as does not depend on where it starts.
Main exports: Cursor.Before, TokenStream.marks_ofCursor, TokenStream.ofText_behindBrace

Reading looks at the characters to come and at whether the line is blank so far.  Where a text starts only
counts for the places of its tokens, and a closing brace in front of a text leaves it with the same tokens.
-/
import Graft.Proofs.Token.ByteOrderMark

namespace Graft

/-- Cursors before the same characters. -/
structure Cursor.Before (c d : Cursor) : Prop where
  rest : c.rest = d.rest
  lineIsBlank : c.lineIsBlank = d.lineIsBlank

theorem Cursor.Before.skip {c d : Cursor} (h : c.Before d) (n : Nat) : (c.skip n).Before (d.skip n) := by
  induction n generalizing c d with
  | zero => exact h
  | succ n ih =>
      refine ih ?_
      cases hrest : c.rest with
      | nil =>
          have hd := h.rest.symm.trans hrest
          simp only [advance, hrest, hd]
          exact h
      | cons x rest =>
          rw [advance_of_rest hrest, advance_of_rest (h.rest.symm.trans hrest), h.lineIsBlank]
          exact ⟨rfl, rfl⟩

namespace TokenStream

variable {c d : Cursor}

theorem mark_tokenAt (h : c.Before d) (count : Nat) (kind : TokenKind) :
    (tokenAt c count kind).mark = (tokenAt d count kind).mark := by
  simp only [Token.mark, tokenAt, h.rest]

/-- From cursors before the same characters the same tokens and errors are read, up to their places. -/
theorem marks_ofCursor (c : Cursor) : ∀ d, c.Before d →
    (ofCursor c).tokens.map Token.mark = (ofCursor d).tokens.map Token.mark ∧
      (ofCursor c).errors.map (·.cause) = (ofCursor d).errors.map (·.cause) := by
  induction c using ofCursor.induct with
  | case1 before c hrest =>
      intro d h
      have hlead : c.Before (d.skip (leadLength d.rest)) := by rw [← h.rest]; exact h.skip _
      rw [ofCursor_of_rest_nil hrest, ofCursor_of_rest_nil (hlead.rest.symm.trans hrest)]
      exact ⟨rfl, rfl⟩
  | case2 before c first rest hrest piece ih =>
      intro d h
      have hlead : c.Before (d.skip (leadLength d.rest)) := by rw [← h.rest]; exact h.skip _
      have hread := ofCursor_of_rest_cons (hlead.rest.symm.trans hrest)
      dsimp only at hread
      rw [← hlead.lineIsBlank] at hread
      have hlater := ih _ (hlead.skip piece.count)
      rw [ofCursor_of_rest_cons hrest, hread]
      simp only [List.map_append]
      rw [hlater.1, hlater.2]
      refine ⟨congrArg (· ++ _) ?_, congrArg (· ++ _) ?_⟩
      · change ((piece.kind?.map (tokenAt c piece.count)).toList).map _ = _
        cases piece.kind? with
        | none => rfl
        | some kind => exact congrArg (fun m => [m]) (mark_tokenAt hlead _ kind)
      · rw [List.map_map, List.map_map]
        rfl

/-- A closing brace and a blank in front of a text are one more token, unless the text starts with a byte
order mark or has a directive in its first line. -/
theorem ofText_behindBrace {text : String} (plain : text.toList.head? ≠ some '\ufeff')
    (noDirective : ¬Text.StartsDirective text.toList) :
    ∃ toks, (ofText ("\x7d " ++ text)).tokens = ⟨.rightBrace, "\x7d", ⟨0, 1, 1, 1⟩⟩ :: toks ∧
      toks.map Token.mark = (ofText text).tokens.map Token.mark ∧
      (ofText ("\x7d " ++ text)).errors.map (·.cause) = (ofText text).errors.map (·.cause) := by
  have hlist : ("\x7d " ++ text).toList = '}' :: ' ' :: text.toList := by rw [String.toList_append]; rfl
  have hsound : Sound (.ofText ('}' :: ' ' :: text.toList)) := ⟨⟨'}', _, rfl, by decide⟩, rfl⟩
  have hblank := ofCursor_advance (c := (Cursor.ofText ('}' :: ' ' :: text.toList)).skip 1) rfl
    (by decide) plain
  obtain ⟨htokens, herrors⟩ := marks_ofCursor ⟨text.toList, ⟨2, 1, 3⟩, true⟩ (.ofText text.toList) ⟨rfl, rfl⟩
  have hread : ofText ("\x7d " ++ text) = ⟨⟨.rightBrace, "\x7d", ⟨0, 1, 1, 1⟩⟩ ::
      (ofCursor ⟨text.toList, ⟨2, 1, 3⟩, true⟩).tokens, (ofCursor ⟨text.toList, ⟨2, 1, 3⟩, true⟩).errors,
      (ofCursor ⟨text.toList, ⟨2, 1, 3⟩, true⟩).stop⟩ := by
    have hpiece : pieceAt (.ofText ('}' :: ' ' :: text.toList)) = ⟨1, some .rightBrace, []⟩ := rfl
    have hplace : ((Cursor.ofText ('}' :: ' ' :: text.toList)).skip 1).advance =
        ⟨text.toList, ⟨2, 1, 3⟩, false⟩ := rfl
    rw [ofText, hlist, ofCursor_of_sound hsound, ← ofCursor_eq_of_not_startsDirective plain noDirective,
      hpiece, hblank, hplace]
    rfl
  rw [hread]
  exact ⟨_, rfl, htokens, herrors⟩

end TokenStream

end Graft
