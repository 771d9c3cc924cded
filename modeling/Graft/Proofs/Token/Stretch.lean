/-
Module: Graft.Proofs.Token.Stretch
Purpose: Spans that reach from one token of a source to another.
Main exports: Token.KindAt, Span.Over, Span.Over.merge, Span.Over.within, Span.Over.apart,
  Span.Over.covers

Tokens are named by their number in the list of all tokens of a source.  The stretch from `i` to `j`
holds the tokens from number `i` on, up to the one before number `j`; its span starts where the first
of them starts and ends where the last of them ends.
-/
import Graft.Proofs.Token.Places

namespace Graft

/-- The token number `i` is of a class. -/
def Token.KindAt (all : List Token) (i : Nat) (kind : TokenKind) : Prop :=
  ∃ t, all[i]? = some t ∧ t.kind = kind

/-- Tokens in the order of a text, without overlap. -/
def Token.InOrder (all : List Token) : Prop :=
  all.Pairwise fun t u => t.span.offset < u.span.offset ∧ t.span.stop ≤ u.span.offset

theorem Token.KindAt.lt {all : List Token} {i : Nat} {kind : TokenKind} (h : KindAt all i kind) :
    i < all.length := by
  obtain ⟨t, ht, -⟩ := h
  exact (List.getElem?_eq_some_iff.1 ht).1

namespace Token.InOrder

variable {all : List Token} (ordered : InOrder all) {i j : Nat} {t u : Token}
include ordered

theorem apart (ht : all[i]? = some t) (hu : all[j]? = some u) (h : i < j) :
    t.span.offset < u.span.offset ∧ t.span.stop ≤ u.span.offset := by
  obtain ⟨hi, rfl⟩ := List.getElem?_eq_some_iff.1 ht
  obtain ⟨hj, rfl⟩ := List.getElem?_eq_some_iff.1 hu
  exact List.pairwise_iff_getElem.1 ordered i j hi hj h

theorem mono (ht : all[i]? = some t) (hu : all[j]? = some u) (h : i ≤ j) :
    t.span.offset ≤ u.span.offset ∧ t.span.stop ≤ u.span.stop := by
  rcases Nat.lt_or_eq_of_le h with h | rfl
  · obtain ⟨hlt, hle⟩ := ordered.apart ht hu h
    exact ⟨Nat.le_of_lt hlt, Nat.le_trans hle (Nat.le_add_right _ _)⟩
  · obtain rfl := Option.some.inj (ht.symm.trans hu)
    exact ⟨Nat.le_refl _, Nat.le_refl _⟩

end Token.InOrder

/-- The span reaches from the token number `i` to the one before number `j`: it starts in the place
where the first starts, and ends where the last ends. -/
def Span.Over (all : List Token) (i j : Nat) (s : Span) : Prop :=
  i < j ∧ ∃ first last, all[i]? = some first ∧ all[j - 1]? = some last ∧
    s = { first.span with length := last.span.stop - first.span.offset }

namespace Span.Over

variable {all : List Token} {i j a b : Nat} {s t : Span}

theorem lt (h : Over all i j s) : i < j := h.1

/-- The span of a single token. -/
theorem single {token : Token} (h : all[i]? = some token) : Over all i (i + 1) token.span := by
  refine ⟨Nat.lt_succ_self i, token, token, h, h, ?_⟩
  obtain ⟨kind, lexeme, span⟩ := token
  simp [Span.stop]

variable (ordered : Token.InOrder all)
include ordered

/-- Where a stretch starts and ends. -/
theorem bounds (h : Over all i j s) : ∃ first last, all[i]? = some first ∧ all[j - 1]? = some last ∧
    s.offset = first.span.offset ∧ s.stop = last.span.stop := by
  obtain ⟨hlt, first, last, hfirst, hlast, rfl⟩ := h
  refine ⟨first, last, hfirst, hlast, rfl, ?_⟩
  have hle := (ordered.mono hfirst hlast (Nat.le_sub_one_of_lt hlt)).1
  have hstop : last.span.offset ≤ last.span.stop := Nat.le_add_right _ _
  change first.span.offset + (last.span.stop - first.span.offset) = _
  omega

/-- A stretch within another one. -/
theorem within (h : Over all i j s) (h' : Over all a b t) (hia : i ≤ a) (hbj : b ≤ j) :
    s.offset ≤ t.offset ∧ t.stop ≤ s.stop := by
  obtain ⟨first, last, hfirst, hlast, hoffset, hstop⟩ := h.bounds ordered
  obtain ⟨first', last', hfirst', hlast', hoffset', hstop'⟩ := h'.bounds ordered
  rw [hoffset, hstop, hoffset', hstop']
  exact ⟨(ordered.mono hfirst hfirst' hia).1, (ordered.mono hlast' hlast (Nat.sub_le_sub_right hbj 1)).2⟩

/-- A stretch before another one. -/
theorem apart (h : Over all i j s) (h' : Over all a b t) (hja : j ≤ a) :
    s.offset < t.offset ∧ s.stop ≤ t.offset := by
  obtain ⟨first, last, hfirst, hlast, hoffset, hstop⟩ := h.bounds ordered
  obtain ⟨first', last', hfirst', hlast', hoffset', hstop'⟩ := h'.bounds ordered
  have hlt := h.lt
  rw [hoffset, hstop, hoffset']
  exact ⟨(ordered.apart hfirst hfirst' (by omega)).1, (ordered.apart hlast hfirst' (by omega)).2⟩

/-- The span that covers a stretch and one that starts in it or behind it. -/
theorem merge (h : Over all i j s) (h' : Over all a b t) (hia : i ≤ a) :
    Over all i (max j b) (s.merge t) := by
  obtain ⟨first, last, hfirst, hlast, hoffset, hstop⟩ := h.bounds ordered
  obtain ⟨first', last', hfirst', hlast', hoffset', hstop'⟩ := h'.bounds ordered
  have hle : s.offset ≤ t.offset := by
    rw [hoffset, hoffset']
    exact (ordered.mono hfirst hfirst' hia).1
  have hlt := h.lt
  have hlt' := h'.lt
  have hmax : ∃ final, all[max j b - 1]? = some final ∧ max s.stop t.stop = final.span.stop := by
    rcases Nat.le_total j b with hjb | hbj
    · have hmono := (ordered.mono hlast hlast' (Nat.sub_le_sub_right hjb 1)).2
      rw [Nat.max_eq_right hjb, hstop, hstop', Nat.max_eq_right hmono]
      exact ⟨last', hlast', rfl⟩
    · have hmono := (ordered.mono hlast' hlast (Nat.sub_le_sub_right hbj 1)).2
      rw [Nat.max_eq_left hbj, hstop, hstop', Nat.max_eq_left hmono]
      exact ⟨last, hlast, rfl⟩
  obtain ⟨final, hfinal, hfinalStop⟩ := hmax
  refine ⟨by omega, first, final, hfirst, hfinal, ?_⟩
  obtain ⟨-, first'', last'', hfirst'', -, rfl⟩ := h
  obtain rfl := Option.some.inj (hfirst.symm.trans hfirst'')
  rw [Span.merge, if_pos hle, hfinalStop]

/-- Stretches that follow one another, with other tokens between them. -/
theorem join (h : Over all i j s) (h' : Over all a b t) (hja : j ≤ a) : Over all i b (s.merge t) := by
  have hmerge := h.merge ordered h' (Nat.le_trans (Nat.le_of_lt h.lt) hja)
  rwa [Nat.max_eq_right (Nat.le_trans hja (Nat.le_of_lt h'.lt))] at hmerge

/-- A stretch is not changed by one within it. -/
theorem absorb (h : Over all i j s) (h' : Over all a b t) (hia : i ≤ a) (hbj : b ≤ j) :
    Over all i j (s.merge t) := by
  have hmerge := h.merge ordered h' hia
  rwa [Nat.max_eq_left hbj] at hmerge

end Span.Over

/-! ### In a source -/

/-- The tokens of a source are in the order of its text. -/
theorem TokenStream.inOrder (source : String) : Token.InOrder (ofText source).tokens :=
  (List.pairwise_append.1 (pairwise_all source)).1

/-- A stretch of the tokens of a source covers a part of it. -/
theorem Span.Over.covers {source : String} {i j : Nat} {s : Span}
    (h : Over (TokenStream.ofText source).tokens i j s) :
    ∃ before covered, s.Covers source.toList before covered := by
  obtain ⟨first, last, hfirst, hlast, hoffset, hstop⟩ := h.bounds (TokenStream.inOrder source)
  have hcovers : ∀ {n : Nat} {t : Token}, (TokenStream.ofText source).tokens[n]? = some t →
      ∃ before, t.span.Covers source.toList before t.lexeme.toList := fun ht =>
    TokenStream.covers_of_mem_all (List.mem_append_left _ (List.mem_of_getElem? ht))
  obtain ⟨before, hcoversFirst⟩ := hcovers hfirst
  obtain ⟨before', hcoversLast⟩ := hcovers hlast
  have hle : s.offset ≤ s.stop := Nat.le_add_right _ _
  have hbefore : before <+: before' ++ last.lexeme.toList := by
    refine Text.isPrefix_of_byteLength_le ((List.prefix_append _ _).trans hcoversFirst.inside)
      hcoversLast.inside ?_
    rw [← hcoversFirst.offset, ← hcoversLast.stop, ← hoffset, ← hstop]
    exact hle
  obtain ⟨covered, hcovered⟩ := hbefore
  refine ⟨before, covered, ?_, ?_, ?_, ?_, ?_⟩
  · rw [hcovered]
    exact hcoversLast.inside
  · rw [hoffset]
    exact hcoversFirst.offset
  · have hbytes := hcoversLast.stop
    rw [← hstop, ← hcovered, Text.byteLength_append, Span.stop, hoffset, hcoversFirst.offset] at hbytes
    exact Nat.add_left_cancel hbytes
  · obtain ⟨-, first', -, hfirst', -, rfl⟩ := h
    obtain rfl := Option.some.inj (hfirst.symm.trans hfirst')
    exact hcoversFirst.line
  · obtain ⟨-, first', -, hfirst', -, rfl⟩ := h
    obtain rfl := Option.some.inj (hfirst.symm.trans hfirst')
    exact hcoversFirst.column

end Graft
