/-
Module: Graft.Proofs.Literal.Passes
Purpose: Texts that a level of a literal passes by itself.
Main exports: Literal.Passes, Literal.Passes.reach_eq, Literal.passes_doubled, Literal.passes_backslashed,
  Literal.passes_lines

What stands between the quotes of a literal is passed character by character, and a character of the value
may be written with two.  As long as each move stays on its level, the moves of two texts in a row are those
of one and then of the other.
-/
import Graft.Proofs.Literal.Seam
import Graft.Proofs.Literal.Written

namespace Graft

namespace Text

/-- The length of the longest run of a character in a text. -/
def longestRun (c : Char) : List Char → Nat
  | [] => 0
  | x :: rest => max ((x :: rest).takeWhile (· = c)).length (longestRun c rest)

theorem length_takeWhile_le_longestRun (c : Char) (text : List Char) :
    (text.takeWhile (· = c)).length ≤ longestRun c text := by
  cases text with
  | nil => exact Nat.le_refl 0
  | cons x rest => exact Nat.le_max_left _ _

end Text

namespace Literal

/-- Before `rest`, a level passes the text from character number `count` on by moves that neither open a
further level nor close this one.  They lead from one state of the level to another. -/
inductive Passes (rest : List Char) : Inside → Nat → List Char → Inside → Prop where
  | done (inside : Inside) (count : Nat) : Passes rest inside count [] inside
  | step {inside next last : Inside} {count : Nat} {c : Char} (taken : List Char) {text : List Char}
      (first : move inside count c (taken ++ text ++ rest) = .pass taken.length next)
      (more : Passes rest next (count + 1 + taken.length) text last) :
      Passes rest inside count (c :: (taken ++ text)) last

namespace Passes

variable {rest a b text : List Char} {inside next last : Inside} {count : Nat}

/-- A single character. -/
theorem one {c : Char} (h : move inside count c rest = .pass 0 next) : Passes rest inside count [c] next :=
  .step [] h (.done _ _)

/-- A character that takes the next one with it. -/
theorem two {c d : Char} (h : move inside count c (d :: rest) = .pass 1 next) :
    Passes rest inside count [c, d] next := .step [d] h (.done _ _)

/-- One text after another. -/
theorem append (h : Passes (b ++ rest) inside count a next)
    (h' : Passes rest next (count + a.length) b last) :
    Passes rest inside count (a ++ b) last := by
  induction h with
  | done inside count => exact h'
  | @step inside middle next count c taken text first more ih =>
      rw [List.cons_append, List.append_assoc]
      refine .step taken ?_ (ih ?_)
      · rwa [List.append_assoc, List.append_assoc, ← List.append_assoc]
      · rw [List.length_cons, List.length_append] at h'
        rwa [show count + 1 + taken.length + text.length = count + (taken.length + text.length + 1) by omega]

/-- What is written for each character is passed, so the whole text is. -/
theorem flatMap {f : Char → List Char}
    (h : ∀ c count rest, Passes rest inside count (f c) inside) (text : List Char) :
    ∀ count, Passes rest inside count (text.flatMap f) inside := by
  induction text with
  | nil => exact fun count => .done inside count
  | cons c text ih =>
      intro count
      rw [List.flatMap_cons]
      exact (h c count _).append (ih _)

/-- A literal reaches over what its innermost level passes. -/
theorem reach_eq {cuts : List Cut} {outer : List Level} (h : Passes rest inside count text last) :
    reach (⟨inside, cuts⟩ :: outer) count (text ++ rest) =
      reach (⟨last, cuts⟩ :: outer) (count + text.length) rest := by
  induction h with
  | done inside count => rfl
  | @step inside next last count c taken text first more ih =>
      rw [List.cons_append, List.append_assoc, reach_cons]
      rw [List.append_assoc] at first
      rw [first, after, List.drop_left, ih, List.length_cons, List.length_append]
      congr 1
      omega

end Passes

variable {rest : List Char}

/-! ### Texts between plain quotes -/

/-- In a string with `@`, quotes that are written twice are passed, and so are
braces if there may be holes. -/
theorem passes_doubled {holes : Bool} {twice : List Char} (quote : '"' ∈ twice)
    (brace : holes = true → '{' ∈ twice) (c : Char) (count : Nat) (rest : List Char) :
    Passes rest (.text true holes) count (doubled twice c) (.text true holes) := by
  have hplain : ∀ n ahead, c ≠ '"' → ¬(c = '{' ∧ holes = true) →
      move (.text true holes) n c ahead = .pass 0 (.text true holes) := by
    intro n ahead hquote hbrace
    simp [move, hquote, hbrace]
  by_cases hc : c ∈ twice
  · rw [doubled_of_mem hc]
    by_cases hquote : c = '"'
    · subst hquote
      exact .two (by simp [move])
    · by_cases hbrace : c = '{' ∧ holes = true
      · exact .two (by simp [move, hbrace])
      · exact (Passes.one (hplain count _ hquote hbrace)).append (.one (hplain _ _ hquote hbrace))
  · rw [doubled_of_not_mem hc]
    refine .one (hplain count _ ?_ ?_)
    · rintro rfl
      exact hc quote
    · rintro ⟨rfl, hholes⟩
      exact hc (brace hholes)

/-- What is written for a character between plain quotes. -/
theorem backslashed_cases (c : Char) : (∃ d ∈ ['\\', '"', 'n'], backslashed c = ['\\', d]) ∨
    ((c ≠ '\\' ∧ c ≠ '"' ∧ c ≠ '\n') ∧ backslashed c = [c]) := by
  by_cases hslash : c = '\\'
  · exact .inl ⟨'\\', by decide, by rw [hslash]; rfl⟩
  · by_cases hquote : c = '"'
    · exact .inl ⟨'"', by decide, by rw [hquote]; rfl⟩
    · by_cases hline : c = '\n'
      · exact .inl ⟨'n', by decide, by rw [hline]; rfl⟩
      · exact .inr ⟨⟨hslash, hquote, hline⟩, backslashed_of_ne ⟨hslash, hquote, hline⟩⟩

theorem move_plain {holes : Bool} {c : Char} (count : Nat) (ahead : List Char)
    (plain : c ≠ '\\' ∧ c ≠ '"' ∧ c ≠ '\n') (brace : ¬(c = '{' ∧ holes = true)) :
    move (.text false holes) count c ahead = .pass 0 (.text false holes) := by
  simp [move, plain, brace]

/-- A backslash and what it escapes are passed. -/
theorem passes_escape {holes : Bool} {d : Char} (h : d ∈ ['\\', '"', 'n']) (count : Nat) (rest : List Char) :
    Passes rest (.text false holes) count ['\\', d] (.text false holes) :=
  have hline : d ≠ '\n' := by
    rintro rfl
    exact absurd h (by decide)
  .two (by simp [move, escaped, hline])

/-- In a string without holes, escaped characters are passed. -/
theorem passes_backslashed (c : Char) (count : Nat) (rest : List Char) :
    Passes rest (.text false false) count (backslashed c) (.text false false) := by
  obtain ⟨d, hd, hwritten⟩ | ⟨hplain, hwritten⟩ := backslashed_cases c
  · rw [hwritten]
    exact passes_escape hd count rest
  · rw [hwritten]
    exact .one (move_plain count rest hplain (by simp))

/-- In a string with holes, escaped characters and braces that are written twice are passed. -/
theorem passes_backslashed_doubled (c : Char) (count : Nat) (rest : List Char) :
    Passes rest (.text false true) count ((backslashed c).flatMap (doubled ['{', '}']))
      (.text false true) := by
  obtain ⟨d, hd, hwritten⟩ | ⟨hplain, hwritten⟩ := backslashed_cases c
  · have hsame : ['\\', d].flatMap (doubled ['{', '}']) = ['\\', d] := by
      simp only [List.mem_cons, List.not_mem_nil, or_false] at hd
      rcases hd with rfl | rfl | rfl <;> rfl
    rw [hwritten, hsame]
    exact passes_escape hd count rest
  · rw [hwritten, List.flatMap_singleton]
    by_cases hopen : c = '{'
    · subst hopen
      exact .two (by simp [move])
    · have hmove : ∀ n ahead, move (.text false true) n c ahead = .pass 0 (.text false true) :=
        fun n ahead => move_plain n ahead hplain fun h => hopen h.1
      by_cases hclose : c ∈ ['{', '}']
      · rw [doubled_of_mem hclose]
        exact (Passes.one (hmove count _)).append (.one (hmove _ _))
      · rw [doubled_of_not_mem hclose]
        exact .one (hmove count _)

/-! ### Lines of raw strings -/

variable {n : Nat}

/-- A raw string passes what holds too few quotes in a row to close it. -/
theorem passes_short_runs (text : List Char) : ∀ run count, run + (text.takeWhile (· = '"')).length < n →
    Text.longestRun '"' text < n → ∃ last, Passes rest (.raw n run) count text (.raw n last) := by
  induction text with
  | nil => exact fun run count _ _ => ⟨run, .done _ _⟩
  | cons c text ih =>
      intro run count hrun hlongest
      rw [Text.longestRun, Nat.max_lt] at hlongest
      have hleading := Text.length_takeWhile_le_longestRun '"' text
      by_cases hc : c = '"'
      · subst hc
        rw [List.takeWhile_cons, if_pos (by decide), List.length_cons] at hrun
        obtain ⟨last, hlast⟩ := ih (run + 1) (count + 1) (by omega) hlongest.2
        have hmove : move (.raw n run) count '"' (text ++ rest) = .pass 0 (.raw n (run + 1)) := by
          simp [move, show run + 1 ≠ n by omega]
        exact ⟨last, .step [] hmove hlast⟩
      · obtain ⟨last, hlast⟩ := ih 0 (count + 1) (by omega) hlongest.2
        have hmove : move (.raw n run) count c (text ++ rest) = .pass 0 (.raw n 0) := by simp [move, hc]
        exact ⟨last, .step [] hmove hlast⟩

/-- A raw string passes a text without quotes, and no quotes were just read. -/
theorem passes_quoteless {text : List Char} (h : '"' ∉ text) (count : Nat) :
    Passes rest (.raw n 0) count text (.raw n 0) := by
  have hchar : ∀ c ∈ text, ∀ count ahead, move (.raw n 0) count c ahead = .pass 0 (.raw n 0) := by
    intro c hc count ahead
    have hne : c ≠ '"' := fun heq => h (heq ▸ hc)
    simp [move, hne]
  clear h
  induction text generalizing count with
  | nil => exact .done _ _
  | cons c text ih =>
      have hlater := ih (count + 1) fun d hd => hchar d (List.mem_cons_of_mem _ hd)
      exact .step [] (hchar c List.mem_cons_self count _) hlater

/-- A raw string passes lines behind their indentation. -/
theorem passes_lines {indent : List Char} {lines : List (List Char)} (hindent : '"' ∉ indent)
    (hlines : ∀ line ∈ lines, Text.longestRun '"' line < n) :
    ∀ count, Passes rest (.raw n 0) count (indented indent lines) (.raw n 0) := by
  induction lines with
  | nil => exact fun count => .done _ _
  | cons line lines ih =>
      intro count
      have hline := hlines line List.mem_cons_self
      have hleading := Text.length_takeWhile_le_longestRun '"' line
      obtain ⟨last, hlast⟩ : ∃ last, Passes ('\n' :: (indented indent lines ++ rest)) (.raw n 0)
          (count + indent.length) line (.raw n last) := passes_short_runs line 0 _ (by omega) hline
      have hfeed : ∀ count, Passes (indented indent lines ++ rest) (.raw n last) count ['\n'] (.raw n 0) :=
        fun count => .one (by simp [move])
      rw [indented, List.flatMap_cons]
      refine .append (.append (passes_quoteless hindent count) (.append ?_ (hfeed _))) (ih ?_ _)
      · exact hlast
      · exact fun l hl => hlines l (List.mem_cons_of_mem _ hl)

/-- The opening quotes of a raw string are counted. -/
theorem passes_opening (more : Nat) : ∀ read count,
    Passes rest (.quotes read) count (List.replicate more '"') (.quotes (read + more)) := by
  induction more with
  | zero => exact fun read count => .done _ _
  | succ more ih =>
      intro read count
      rw [List.replicate_succ, Nat.add_comm more 1, ← Nat.add_assoc]
      exact .step [] (by simp [move]) (ih (read + 1) (count + 1))

/-- As many quotes as opened a raw string close it. -/
theorem reach_closing (more : Nat) : ∀ run count, run + more + 1 = n →
    reach [⟨.raw n run, []⟩] count (List.replicate (more + 1) '"') = ⟨count + more + 1, true, []⟩ := by
  induction more with
  | zero =>
      intro run count hrun
      rw [List.replicate_succ, reach_cons]
      have hmove : move (.raw n run) count '"' (List.replicate 0 '"') = .leave := by
        simp [move, show run + 1 = n by omega]
      rw [hmove]
      rfl
  | succ more ih =>
      intro run count hrun
      have hmove : move (.raw n run) count '"' (List.replicate (more + 1) '"') =
          .pass 0 (.raw n (run + 1)) := by
        simp [move, show run + 1 ≠ n by omega]
      rw [List.replicate_succ, reach_cons, hmove, after, List.drop_zero, ih (run + 1) _ (by omega)]
      congr 1
      omega

end Literal

end Graft
