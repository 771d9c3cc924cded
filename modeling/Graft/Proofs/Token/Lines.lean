/-
Module: Graft.Proofs.Token.Lines
Purpose: Texts that are put together from lines.
Main exports: TokenStream.SpelledLines, TokenStream.SpelledLines.both, TokenStream.SpelledLines.each,
  TokenStream.SpelledLines.indented, TokenStream.SpelledLines.ofText

A line is read by itself if it is spelled before the new line that ends it.  Tabs in front of it spell
nothing, so lines have the same tokens however deep they stand.
-/
import Graft.Proofs.Token.Enclosed

namespace Graft.TokenStream

variable {lines more : List String} {R S T : List Char → List Token → Prop} {W a v : List Char}

/-- A tab, a blank or a new line spells nothing unless a byte order mark comes behind it. -/
theorem spells_space {x : Char} (hx : x ∈ ['\t', ' ', '\n']) (hv : v.head? ≠ some '\ufeff') :
    Spells W [x] v (Marked []) :=
  spells_lead (List.all_eq_true.1 (show ['\t', ' ', '\n'].all isLead = true by decide) x hx) hv

/-- A text behind a tab, a blank or a new line. -/
theorem Spells.behind {x : Char} {R : List Token → Prop} (hx : x ∈ ['\t', ' ', '\n'])
    (next : (a ++ v).head? ≠ some '\ufeff') (h : Spells W a v R) : Spells W (x :: a) v R :=
  (spells_space hx next).append h fun t u ht hu => by
    rw [List.map_eq_nil_iff.1 ht]
    exact hu

/-- The characters of lines that stand behind tabs. -/
def charsOf (tabs : Nat) (lines : List String) : List Char :=
  lines.flatMap fun line => List.replicate tabs '\t' ++ (line.toList ++ ['\n'])

/-- However deep the lines stand, in whatever text, their tokens satisfy `R` of this text. -/
structure SpelledLines (lines : List String) (R : List Char → List Token → Prop) : Prop where
  plain : ∀ line ∈ lines, line.toList.head? ≠ some '\ufeff'
  spells : ∀ W v tabs, v.head? ≠ some '\ufeff' → Spells W (charsOf tabs lines) v (R W)

/-- No line starts with a byte order mark, and so what stands before lines is cut off from them. -/
theorem head?_charsOf (plain : ∀ line ∈ lines, line.toList.head? ≠ some '\ufeff') (tabs : Nat)
    (hv : v.head? ≠ some '\ufeff') : (charsOf tabs lines ++ v).head? ≠ some '\ufeff' := by
  cases lines with
  | nil => exact hv
  | cons line rest =>
      have hline := plain line List.mem_cons_self
      cases tabs with
      | succ n =>
          change some '\t' ≠ _
          decide
      | zero =>
          change ((line.toList ++ ['\n']) ++ charsOf 0 rest ++ v).head? ≠ _
          cases hchars : line.toList with
          | nil =>
              change some '\n' ≠ _
              decide
          | cons x chars =>
              rw [hchars] at hline
              exact hline

namespace SpelledLines

/-- The tokens of lines satisfy what follows from what they satisfy. -/
theorem mono (h : SpelledLines lines R) (hR : ∀ W toks, R W toks → S W toks) : SpelledLines lines S :=
  ⟨h.plain, fun W v tabs hv => (h.spells W v tabs hv).mono (hR W)⟩

theorem nil (h : ∀ W, R W []) : SpelledLines [] R :=
  ⟨fun _ hline => absurd hline List.not_mem_nil, fun W _ _ _ => .nil (h W)⟩

/-- Lines behind other ones. -/
theorem both (h : SpelledLines lines R) (h' : SpelledLines more S) :
    SpelledLines (lines ++ more) fun W toks => ∃ t u, toks = t ++ u ∧ R W t ∧ S W u where
  plain line hline := (List.mem_append.1 hline).elim (h.plain line) (h'.plain line)
  spells W v tabs hv := by
    have hbehind := h'.spells W v tabs hv
    have hbefore := h.spells W (charsOf tabs more ++ v) tabs (head?_charsOf h'.plain tabs hv)
    rw [charsOf, List.flatMap_append]
    exact hbefore.both hbehind

/-- A line for each item of a list. -/
theorem each {τ : Type} {line : τ → String} {Phrase : τ → List Char → List Token → Prop} {list : List τ}
    (h : ∀ x ∈ list, SpelledLines [line x] (Phrase x)) : SpelledLines (list.map line) fun W toks =>
      ∃ chunks : List (List Token), toks = chunks.flatten ∧
        List.Forall₂ (fun x u => Phrase x W u) list chunks := by
  induction list with
  | nil => exact .nil fun _ => ⟨[], rfl, .nil⟩
  | cons x rest ih =>
      obtain ⟨hfirst, hrest⟩ := List.forall_mem_cons.1 h
      refine (hfirst.both (ih hrest)).mono ?_
      rintro W _ ⟨u, _, rfl, hu, chunks, rfl, hchunks⟩
      exact ⟨u :: chunks, rfl, .cons hu hchunks⟩

/-- A line that is spelled before a new line. -/
theorem single {line : String} (plain : line.toList.head? ≠ some '\ufeff')
    (h : ∀ W v, Spells W line.toList ('\n' :: v) (R W)) : SpelledLines [line] R where
  plain other hother := List.mem_singleton.1 hother ▸ plain
  spells W v tabs hv := by
    have hend : Spells W (line.toList ++ ['\n']) v (R W) :=
      (h W v).append (spells_space (by simp) hv) fun t u ht hu => by
        rw [List.map_eq_nil_iff.1 hu, List.append_nil]
        exact ht
    have hnext : ((line.toList ++ ['\n']) ++ v).head? ≠ some '\ufeff' := by
      cases hchars : line.toList with
      | nil =>
          change some '\n' ≠ _
          decide
      | cons x chars =>
          rw [hchars] at plain
          exact plain
    have hall : Spells W (List.replicate tabs '\t' ++ (line.toList ++ ['\n'])) v (R W) := by
      induction tabs with
      | zero => exact hend
      | succ n ih =>
          refine ih.behind (by simp) ?_
          cases n with
          | zero => exact hnext
          | succ n =>
              change some '\t' ≠ _
              decide
    rw [charsOf, List.flatMap_cons, List.flatMap_nil, List.append_nil]
    exact hall

/-- An empty line. -/
theorem blank (h : ∀ W, R W []) : SpelledLines [""] R :=
  single (by decide) fun W v => .nil (h W)

/-- Lines one step deeper. -/
theorem indented (h : SpelledLines lines R) : SpelledLines (lines.map ("\t" ++ ·)) R where
  plain line hline := by
    obtain ⟨line, -, rfl⟩ := List.mem_map.1 hline
    rw [String.toList_append]
    change some '\t' ≠ _
    decide
  spells W v tabs hv := by
    have hchars : charsOf tabs (lines.map ("\t" ++ ·)) = charsOf (tabs + 1) lines := by
      rw [charsOf, charsOf, List.flatMap_map]
      refine List.flatMap_congr fun line _ => ?_
      rw [String.toList_append, List.replicate_succ', List.append_assoc, List.append_assoc]
      rfl
    rw [hchars]
    exact h.spells W v (tabs + 1) hv

/-- A text that consists of lines has their tokens. -/
theorem ofText (h : SpelledLines lines R) {text : String}
    (htext : text = String.join (lines.map (· ++ "\n"))) :
    ∃ toks stop, TokenStream.ofText text = ⟨toks, [], stop⟩ ∧ R text.toList toks := by
  have hchars : text.toList = charsOf 0 lines := by
    rw [htext, charsOf]
    clear htext h
    induction lines with
    | nil => rfl
    | cons line rest ih =>
        rw [List.map_cons, String.join_cons, String.toList_append, ih, List.flatMap_cons,
          String.toList_append]
        rfl
  have hspells := h.spells text.toList [] 0 (by simp)
  rw [← hchars] at hspells
  exact ofText_of_spells hspells

end SpelledLines

end Graft.TokenStream
