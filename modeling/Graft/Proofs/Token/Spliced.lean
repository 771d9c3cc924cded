/-
Module: Graft.Proofs.Token.Spliced
Purpose: Texts of tokens that are put into another text.
Main exports: TokenStream.Excerpt.spells, TokenStream.Excerpt.slice?, TokenStream.spells_line

The text of tokens that stand together has the same tokens in another text, if a blank, a new line or a
semicolon comes behind it there; and it is then the text from the first of these tokens to the last one.
-/
import Graft.Proofs.Program.Recorded
import Graft.Proofs.Token.Enclosed

namespace Graft

open Text (Stops)

namespace TokenStream

variable {W v : List Char}

/-- The first and the last of tokens that have moved are those that were it. -/
theorem exists_of_moved {p q : Nat} {toks toks' : List Token}
    (h : List.Forall₂ (Token.Moved p q) toks toks') :
    (∀ t' ∈ toks'.head?, ∃ t ∈ toks.head?, t'.span.offset + p = t.span.offset + q) ∧
      ∀ t' ∈ toks'.getLast?, ∃ t ∈ toks.getLast?, t'.span.stop + p = t.span.stop + q := by
  have hstop : ∀ {t t' : Token}, Token.Moved p q t t' → t'.span.stop + p = t.span.stop + q := fun ht => by
    have hoffset := ht.offset
    rw [Span.stop, Span.stop, ht.length]
    omega
  induction h with
  | nil => exact ⟨by simp, by simp⟩
  | @cons t t' rest rest' ht hrest ih =>
      refine ⟨fun x hx => ⟨t, rfl, Option.some.inj hx ▸ ht.offset⟩, fun x hx => ?_⟩
      cases hrest with
      | nil => exact ⟨t, rfl, Option.some.inj hx ▸ hstop ht⟩
      | cons _ _ => exact ih.2 x hx

/-- A copy of an excerpt is an excerpt, with the same tokens. -/
theorem Excerpt.spells {source : String} {toks : List Token} {before text : List Char}
    (h : Excerpt source toks before text) (stop : Stops v) :
    Spells W text v fun toks' => toks'.map Token.mark = toks.map Token.mark ∧
      ∃ before', Excerpt (String.ofList W) toks' before' text := by
  intro n hn
  obtain ⟨behind, hsource, hseam, stopped, rfl, hends, hreads⟩ := h.cut
  have hrest : ((Cursor.ofText source.toList).skip before.length).rest = text ++ stopped.rest :=
    Cursor.rest_skip_length hsource
  obtain ⟨toks', hreads', hmoved⟩ := hreads.moved hrest rfl hn stop hseam (.inr h.plain) (.inr hends)
  rw [← Cursor.skip_add] at hreads'
  -- where the copy starts
  have hdrop : W.drop n = text ++ v := by rwa [Cursor.rest_skip] at hn
  have htake : (W.take n).length = n := by
    obtain ⟨first, rest, rfl, -⟩ := h.plain
    have hlength := congrArg List.length hdrop
    rw [List.length_drop, List.length_append, List.length_cons] at hlength
    rw [List.length_take]
    omega
  have hW : W = W.take n ++ (text ++ v) := by rw [← hdrop, List.take_append_drop]
  have hp : ((Cursor.ofText source.toList).skip before.length).position.offset = Text.byteLength before :=
    (Cursor.offset_skip_length hsource).trans (Nat.zero_add _)
  have hq : ((Cursor.ofText W).skip n).position.offset = Text.byteLength (W.take n) := by
    have hoffset := Cursor.offset_skip_length (c := .ofText W) hW
    rw [htake] at hoffset
    exact hoffset.trans (Nat.zero_add _)
  rw [hp, hq] at hmoved
  obtain ⟨hfirst, hlast⟩ := exists_of_moved hmoved
  have hstop : ∀ t ∈ toks'.getLast?, t.span.stop = Text.byteLength (W.take n ++ text) := by
    intro t' ht'
    obtain ⟨t, ht, hplace⟩ := hlast t' ht'
    rw [h.stop t ht, Text.byteLength_append] at hplace
    rw [Text.byteLength_append]
    omega
  refine ⟨toks', hreads', Token.map_mark_of_moved hmoved, W.take n,
    ⟨v, ?_, .inr stop.not_identContinue, _, Cursor.rest_skip_length hn, ?_, ?_⟩, h.plain, ?_, ?_⟩
  · rwa [String.toList_ofList]
  · obtain ⟨front, last, rfl, -⟩ := hends
    obtain ⟨front', last', rfl⟩ : ∃ front' last', toks' = front' ++ [last'] := by
      rcases List.eq_nil_or_concat toks' with rfl | ⟨front', last', heq⟩
      · simpa using hmoved.length_eq
      · exact ⟨front', last', heq.trans List.concat_eq_append⟩
    refine ⟨front', last', rfl, ?_⟩
    rw [hstop last' (by rw [List.getLast?_concat]; rfl), Cursor.offset_skip_length hn, hq,
      Text.byteLength_append]
  · rw [String.toList_ofList, htake, ← Cursor.skip_add]
    exact hreads'
  · intro t' ht'
    obtain ⟨t, ht, hplace⟩ := hfirst t' ht'
    rw [h.offset t ht] at hplace
    omega
  · exact hstop

/-- A text that is read by itself without an error is read so before a new line. -/
theorem spells_line {text : String} (clean : (ofText text).errors = [])
    (plain : ∃ first rest, text.toList = first :: rest ∧ isLead first = false ∧ first ≠ '#') :
    Spells W text.toList ('\n' :: v) (Marked ((ofText text).tokens.map Token.mark)) := by
  intro n hn
  obtain ⟨e, hend, hreads⟩ := reads_to_end clean
  have hstop : Stops ('\n' :: v) := by
    intro x hx
    obtain rfl : '\n' = x := by simpa using hx
    exact .inr (.inl rfl)
  obtain ⟨toks, hreads', hmoved⟩ := hreads.moved (v := []) (List.append_nil _).symm hend hn hstop
    (.inr rfl) (.inr plain) (.inl (.inl rfl))
  rw [← Cursor.skip_add] at hreads'
  exact ⟨toks, hreads', Token.map_mark_of_moved hmoved⟩

end TokenStream

/-- What a span over the tokens of an excerpt covers is its text. -/
theorem TokenStream.Excerpt.slice? {text : String} {i j : Nat} {span : Span} {before copied : List Char}
    (h : Excerpt text (Token.between (TokenStream.ofText text).tokens i j) before copied)
    (place : span.Over (TokenStream.ofText text).tokens i j) :
    span.slice? text = some (String.ofList copied) := by
  obtain ⟨before', found, covers⟩ := place.covers
  obtain ⟨first, last, hfirst, hlast, hoffset, hstop⟩ := place.bounds (TokenStream.inOrder text)
  have hlt := place.lt
  have hhead : (Token.between (TokenStream.ofText text).tokens i j).head? = some first := by
    rw [Token.between, List.head?_take, if_neg (by omega), List.head?_drop, hfirst]
  have hend : (Token.between (TokenStream.ofText text).tokens i j).getLast? = some last := by
    have hone := Token.between_single hlast
    rw [Nat.sub_add_cancel (Nat.one_le_of_lt hlt)] at hone
    rw [← Token.between_append (Nat.le_sub_one_of_lt hlt) (Nat.sub_le j 1), hone, List.getLast?_concat]
  rw [h.eq_of_covers hhead hend hoffset hstop covers] at covers
  exact covers.slice?

end Graft
