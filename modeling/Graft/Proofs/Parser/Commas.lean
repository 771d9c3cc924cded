/-
Module: Graft.Proofs.Parser.Commas
Purpose: Where a search for a comma or semicolon stops.
Main exports: Token.SplitsAtComma, Skip.untilLength_comma, Skip.untilLength_plain

Round, square and curly brackets hide the commas between them from the search.  Angle brackets hide nothing.
-/
import Graft.Proofs.Parser.Nesting

namespace Graft

/-- A comma of the tokens stands outside all brackets. -/
def Token.SplitsAtComma (tokens : List Token) : Prop :=
  ∃ before comma after, tokens = before ++ comma :: after ∧ comma.kind = .comma ∧ Nested before

open Token (SplitsAtComma)

variable {t opening closing : Token} {inner rest u v : List Token}

/-- What an opening bracket starts is a group. -/
theorem Nested.exists_group (h : Nested (t :: u)) (opener : t.kind.isOpener = true) :
    ∃ inner closing rest, u = inner ++ closing :: rest ∧ t.kind.closer? = some closing.kind ∧ Nested inner ∧
      Nested rest := by
  cases h with
  | plain notOpener _ _ =>
      rw [opener] at notOpener
      cases notOpener
  | group closes inside later => exact ⟨_, _, _, rfl, closes, inside, later⟩

/-- A token that is no opening bracket may be left out. -/
theorem Nested.tail (h : Nested (t :: u)) (notOpener : t.kind.isOpener = false) : Nested u := by
  cases h with
  | plain _ _ later => exact later
  | group closes _ _ =>
      rw [(TokenKind.isOpener_of_closer? closes).1.1] at notOpener
      cases notOpener

/-- A group ends in one place only. -/
theorem Nested.group_inj {closing' : Token} {inner' rest' : List Token}
    (closes : opening.kind.closer? = some closing.kind) (inside : Nested inner)
    (closes' : opening.kind.closer? = some closing'.kind) (inside' : Nested inner')
    (same : inner ++ closing :: rest = inner' ++ closing' :: rest') :
    inner = inner' ∧ closing = closing' ∧ rest = rest' := by
  have hlength : Skip.groupLength? 0 (opening :: (inner ++ closing :: rest)) = some (inner.length + 2) :=
    Skip.groupLength?_group closes inside
  rw [same, Skip.groupLength?_group closes' inside', Option.some_inj] at hlength
  obtain ⟨hinner, hbehind⟩ := List.append_inj same (by omega)
  exact ⟨hinner, List.cons_eq_cons.1 hbehind⟩

namespace Token.SplitsAtComma

/-- A token that is no comma and no bracket does not count. -/
theorem of_plain (h : SplitsAtComma (t :: u)) (notComma : t.kind ≠ .comma)
    (notOpener : t.kind.isOpener = false) :
    SplitsAtComma u := by
  obtain ⟨before, comma, after, hsplit, hcomma, hbefore⟩ := h
  cases before with
  | nil =>
      obtain ⟨rfl, -⟩ := List.cons_eq_cons.1 hsplit
      exact absurd hcomma notComma
  | cons t' before =>
      obtain ⟨rfl, htail⟩ := List.cons_eq_cons.1 hsplit
      exact ⟨before, comma, after, htail, hcomma, hbefore.tail notOpener⟩

/-- A comma in a group does not count. -/
theorem of_group (h : SplitsAtComma (opening :: (inner ++ closing :: u)))
    (closes : opening.kind.closer? = some closing.kind) (inside : Nested inner) : SplitsAtComma u := by
  obtain ⟨before, comma, after, hsplit, hcomma, hbefore⟩ := h
  have hopener := (TokenKind.isOpener_of_closer? closes).1.1
  cases before with
  | nil =>
      obtain ⟨rfl, -⟩ := List.cons_eq_cons.1 hsplit
      rw [hcomma] at hopener
      cases hopener
  | cons t before =>
      obtain ⟨rfl, htail⟩ := List.cons_eq_cons.1 hsplit
      obtain ⟨inner', closing', rest, rfl, closes', inside', later⟩ := hbefore.exists_group hopener
      obtain ⟨-, -, rfl⟩ :=
        Nested.group_inj closes inside closes' inside' (htail.trans (List.append_assoc ..))
      exact ⟨rest, comma, after, rfl, hcomma, later⟩

/-- Where a comma stands is seen from the classes of the tokens. -/
theorem congr (h : SplitsAtComma u) (same : v.map Token.kind = u.map Token.kind) : SplitsAtComma v := by
  obtain ⟨before, comma, after, rfl, hcomma, hbefore⟩ := h
  rw [List.map_append, List.map_cons] at same
  obtain ⟨before', rest, rfl, hbefore', hrest⟩ := List.map_eq_append_iff.1 same
  obtain ⟨comma', after', rfl, hcomma', -⟩ := List.map_eq_cons_iff.1 hrest
  exact ⟨before', comma', after', rfl, hcomma'.trans hcomma, hbefore.congr hbefore'⟩

end Token.SplitsAtComma

/-- A search for a comma or semicolon in nested tokens without semicolons stops at a comma outside all
brackets, and passes the tokens if there is none. -/
theorem Skip.untilLength_comma (h : Nested u) (noEnd : ∀ t ∈ u, t.kind ≠ .semicolon) :
    (∃ before comma after, u = before ++ comma :: after ∧ comma.kind = .comma ∧ Nested before ∧
        ∀ v, untilLength [.comma, .semicolon] 0 (u ++ v) = .closed before.length) ∨
      ¬SplitsAtComma u ∧ ∀ v, untilLength [.comma, .semicolon] 0 (u ++ v) =
        .after u.length (untilLength [.comma, .semicolon] 0 v) := by
  induction h with
  | nil =>
      refine .inr ⟨?_, fun v => by simp [Distance.after]⟩
      rintro ⟨before, comma, after, hsplit, -⟩
      simp at hsplit
  | @plain t rest notOpener notCloser later ih =>
      have hsemicolon := noEnd t List.mem_cons_self
      by_cases hcomma : t.kind = .comma
      · refine .inl ⟨[], t, rest, rfl, hcomma, .nil, fun v => ?_⟩
        rw [List.cons_append, untilLength, if_pos ⟨rfl, .inl (by simp [hcomma])⟩]
        rfl
      · have hstep : ∀ v, untilLength [.comma, .semicolon] 0 (t :: rest ++ v) =
            .after 1 (untilLength [.comma, .semicolon] 0 (rest ++ v)) := fun v => by
          rw [List.cons_append, untilLength, if_neg (by simp [hcomma, hsemicolon, notCloser]),
            depthAfter_plain notOpener notCloser]
        rcases ih fun t ht => noEnd t (List.mem_cons_of_mem _ ht) with
          ⟨before, comma, after, rfl, hkind, hbefore, hlength⟩ | ⟨hnone, hlength⟩
        · refine .inl ⟨t :: before, comma, after, rfl, hkind, .plain notOpener notCloser hbefore,
            fun v => ?_⟩
          rw [hstep, hlength, after_closed, List.length_cons, Nat.add_comm]
        · refine .inr ⟨fun h => hnone (h.of_plain hcomma notOpener), fun v => ?_⟩
          rw [hstep, hlength, after_after, List.length_cons, Nat.add_comm]
  | @group opening closing inner rest closes inside later _ ih =>
      have hopener := (TokenKind.isOpener_of_closer? closes).1.1
      have hend : opening.kind ∉ [TokenKind.comma, .semicolon] := by
        intro hmem
        rw [List.mem_cons, List.mem_singleton] at hmem
        rcases hmem with hkind | hkind <;> rw [hkind] at hopener <;> cases hopener
      have hstep : ∀ v, untilLength [.comma, .semicolon] 0 (opening :: (inner ++ closing :: rest) ++ v) =
          .after (inner.length + 2) (untilLength [.comma, .semicolon] 0 (rest ++ v)) := fun v => by
        rw [List.cons_append, List.append_assoc, List.cons_append, untilLength_group closes inside hend]
      rcases ih fun t ht => noEnd t (by simp [ht]) with
        ⟨before, comma, after, rfl, hkind, hbefore, hlength⟩ | ⟨hnone, hlength⟩
      · refine .inl ⟨opening :: (inner ++ closing :: before), comma, after, by simp, hkind,
          .group closes inside hbefore, fun v => ?_⟩
        rw [hstep, hlength, after_closed]
        simp only [List.length_cons, List.length_append]
        congr 1
        omega
      · refine .inr ⟨fun h => hnone (h.of_group closes inside), fun v => ?_⟩
        rw [hstep, hlength, after_after]
        simp only [List.length_cons, List.length_append]
        congr 1
        omega

/-- A search passes tokens that are neither brackets nor terminators. -/
theorem Skip.untilLength_plain {terminators : List TokenKind}
    (h : ∀ t ∈ u, t.kind ∉ terminators ∧ t.kind.isOpener = false ∧ t.kind.isCloser = false)
    (v : List Token) :
    untilLength terminators 0 (u ++ v) = .after u.length (untilLength terminators 0 v) := by
  induction u with
  | nil => simp [Distance.after]
  | cons t u ih =>
      obtain ⟨hend, hopen, hclose⟩ := h t List.mem_cons_self
      rw [List.cons_append, untilLength, if_neg (by simp [hend, hclose]), depthAfter_plain hopen hclose,
        ih fun t ht => h t (List.mem_cons_of_mem _ ht), after_after, List.length_cons, Nat.add_comm]

end Graft
