/-
Module: Graft.Proofs.Literal.Written
Purpose: Texts as string literals are written with them, and the values that are read back.
Main exports: Literal.verbatim_written, Literal.interpolated_marked, Literal.regular_written,
  Literal.interpolated_written, Literal.raw?_written

A literal is written character by character.  What stands for a character is one or two characters
long, and reading takes the same one or two characters at a time.
-/
import Mathlib.Data.List.Infix
import Graft.Literal.Text

namespace Graft.Literal

/-! ### Written forms -/

/-- A character where some characters are written twice. -/
def doubled (twice : List Char) (c : Char) : List Char := if c ∈ twice then [c, c] else [c]

/-- A character between plain quotes.  Backslashes, quotes and line feeds are escaped. -/
def backslashed (c : Char) : List Char :=
  if c = '\\' then ['\\', '\\']
  else if c = '"' then ['\\', '"']
  else if c = '\n' then ['\\', 'n']
  else [c]

/-- A text between two quotes. -/
def between (text : List Char) : List Char := '"' :: (text ++ ['"'])

/-- A text as a string `@"..."`. -/
def writtenVerbatim (text : List Char) : List Char :=
  ['@'] ++ between (text.flatMap (doubled ['"']))

/-- A text as a string `$@"..."` or `@$"..."`, whose marks are given. -/
def writtenMarked (marks text : List Char) : List Char :=
  marks ++ between (text.flatMap (doubled ['"', '{', '}']))

/-- A text as a string `"..."`. -/
def writtenRegular (text : List Char) : List Char := between (text.flatMap backslashed)

/-- A text as a string `$"..."`. -/
def writtenInterpolated (text : List Char) : List Char :=
  ['$'] ++ between ((text.flatMap backslashed).flatMap (doubled ['{', '}']))

/-- Lines as they stand in a raw string, each behind the indentation. -/
def indented (indent : List Char) (lines : List (List Char)) : List Char :=
  lines.flatMap fun line => indent ++ (line ++ ['\n'])

/-- Lines as a raw string over several lines, between `count` quotes. -/
def writtenRaw (count : Nat) (indent : List Char) (lines : List (List Char)) : List Char :=
  List.replicate count '"' ++
    ('\n' :: (indented indent lines ++ indent) ++ List.replicate count '"')

@[simp] theorem doubled_of_mem {twice : List Char} {c : Char} (h : c ∈ twice) :
    doubled twice c = [c, c] := if_pos h

@[simp] theorem doubled_of_not_mem {twice : List Char} {c : Char} (h : c ∉ twice) :
    doubled twice c = [c] := if_neg h

theorem backslashed_of_ne {c : Char} (h : c ≠ '\\' ∧ c ≠ '"' ∧ c ≠ '\n') : backslashed c = [c] := by
  simp [backslashed, h]

/-! ### Quotes around a text -/

theorem dropBeginning?_append (beginning text : List Char) :
    dropBeginning? beginning (beginning ++ text) = some text := by
  simp [dropBeginning?]

theorem dropEnding?_append (ending text : List Char) :
    dropEnding? ending (text ++ ending) = some text := by
  simp [dropEnding?]

/-- What stands between two marks is found between them. -/
theorem between?_append (opening text closing : List Char) :
    between? opening closing (opening ++ (text ++ closing)) = some text := by
  rw [between?, dropBeginning?_append]
  exact dropEnding?_append closing text

/-- What stands between the quotes of a literal. -/
theorem between?_between (marks text : List Char) :
    between? (marks ++ ['"']) ['"'] (marks ++ between text) = some text := by
  have hassoc : marks ++ between text = (marks ++ ['"']) ++ (text ++ ['"']) := by
    simp [between]
  rw [hassoc]
  exact between?_append (marks ++ ['"']) text ['"']

/-- A text does not end with what ends with another character. -/
theorem dropEnding?_of_ne {a b : Char} (h : a ≠ b) (ending text : List Char) :
    dropEnding? (ending ++ [a]) (text ++ [b]) = none := by
  have hsuffix : ¬(ending ++ [a]) <:+ (text ++ [b]) := fun ⟨front, hfront⟩ => by
    rw [← List.append_assoc] at hfront
    exact h (List.singleton_injective (List.append_inj_right' hfront rfl))
  rw [dropEnding?, if_neg (mt List.isSuffixOf_iff_suffix.1 hsuffix)]

/-- A literal that ends with a quote has no suffix. -/
theorem withoutSuffix_quote (text : List Char) : withoutSuffix (text ++ ['"']) = text ++ ['"'] := by
  have hsmall := dropEnding?_of_ne (a := '8') (b := '"') (by decide) ['u'] text
  have hlarge := dropEnding?_of_ne (a := '8') (b := '"') (by decide) ['U'] text
  rw [withoutSuffix, show ['u', '8'] = ['u'] ++ ['8'] from rfl, hsmall,
    show ['U', '8'] = ['U'] ++ ['8'] from rfl, hlarge]
  rfl

theorem withoutSuffix_between (marks text : List Char) :
    withoutSuffix (marks ++ between text) = marks ++ between text := by
  have hassoc : marks ++ between text = (marks ++ '"' :: text) ++ ['"'] := by
    simp [between]
  rw [hassoc, withoutSuffix_quote]

/-! ### Doubled characters -/

theorem singleQuotes_cons {c : Char} (h : c ≠ '"') (rest : List Char) :
    singleQuotes (c :: rest) = c :: singleQuotes rest := by
  rw [singleQuotes.eq_def]
  split <;> simp_all

/-- Quotes that are written twice are read once. -/
theorem singleQuotes_doubled (text : List Char) :
    singleQuotes (text.flatMap (doubled ['"'])) = text := by
  induction text with
  | nil => rfl
  | cons c rest ih =>
      rw [List.flatMap_cons]
      by_cases h : c = '"'
      · subst h
        rw [doubled_of_mem (by simp), List.cons_append, List.singleton_append, singleQuotes, ih]
      · rw [doubled_of_not_mem (by simpa using h), List.singleton_append, singleQuotes_cons h, ih]

theorem singleBraces?_cons {c : Char} (h : c ∉ ['{', '}']) (rest : List Char) :
    singleBraces? (c :: rest) = (c :: ·) <$> singleBraces? rest := by
  rw [singleBraces?.eq_def]
  split <;> simp_all

/-- A brace that is written twice is read once. -/
theorem singleBraces?_cons_cons {c : Char} (h : c ∈ ['{', '}']) (rest : List Char) :
    singleBraces? (c :: c :: rest) = (c :: ·) <$> singleBraces? rest := by
  rcases List.mem_pair.1 h with rfl | rfl <;> rfl

/-- Braces that are written twice are read once, and open no hole. -/
theorem singleBraces?_doubled (text : List Char) :
    singleBraces? (text.flatMap (doubled ['{', '}'])) = some text := by
  induction text with
  | nil => rfl
  | cons c rest ih =>
      rw [List.flatMap_cons]
      by_cases h : c ∈ ['{', '}']
      · rw [doubled_of_mem h, List.cons_append, List.singleton_append, singleBraces?_cons_cons h, ih]
        rfl
      · rw [doubled_of_not_mem h, List.singleton_append, singleBraces?_cons h, ih]
        rfl

/-- Quotes and braces that are written twice are quotes that are, with braces written twice in that
text. -/
theorem flatMap_doubled (text : List Char) : text.flatMap (doubled ['"', '{', '}']) =
    (text.flatMap (doubled ['"'])).flatMap (doubled ['{', '}']) := by
  rw [List.flatMap_assoc]
  congr 1
  funext c
  by_cases hquote : c = '"'
  · subst hquote
    rfl
  · by_cases hbrace : c ∈ ['{', '}']
    · rw [doubled_of_mem (List.mem_cons_of_mem _ hbrace), doubled_of_not_mem (by simpa using hquote)]
      simp [doubled_of_mem hbrace]
    · have hneither : c ∉ ['"', '{', '}'] := by
        rw [List.mem_cons]
        exact not_or.2 ⟨hquote, hbrace⟩
      rw [doubled_of_not_mem hneither, doubled_of_not_mem (by simpa using hquote)]
      simp [doubled_of_not_mem hbrace]

/-! ### Values -/

/-- A string `@"..."` has the text that it is written with as its value. -/
theorem verbatim_written (text : List Char) : verbatim (writtenVerbatim text) = text := by
  have hbetween := between?_between ['@'] (text.flatMap (doubled ['"']))
  rw [verbatim, writtenVerbatim, withoutSuffix_between, show ['@', '"'] = ['@'] ++ ['"'] from rfl]
  rw [hbetween]
  exact singleQuotes_doubled text

/-- The marks of a string and what follows them. -/
theorem takeWhile_marks {marks : List Char} (hmarks : ∀ c ∈ marks, isMark c = true) (text : List Char) :
    (marks ++ between text).takeWhile isMark = marks := by
  have hquote : isMark '"' = false := by decide
  rw [List.takeWhile_append_of_pos hmarks, between, List.takeWhile_cons, hquote]
  exact List.append_nil _

/-- A string with `$` and `@` has the text that it is written with as its value. -/
theorem interpolated_marked {marks : List Char} (hmarks : ∀ c ∈ marks, isMark c = true) (at_ : '@' ∈ marks)
    (text : List Char) : interpolated (writtenMarked marks text) = .ok (some text) := by
  have hbetween := between?_between [] (text.flatMap (doubled ['"', '{', '}']))
  rw [List.nil_append, List.nil_append] at hbetween
  rw [interpolated, writtenMarked, takeWhile_marks hmarks, List.drop_left, hbetween]
  dsimp only [Option.getD_some]
  rw [flatMap_doubled, singleBraces?_doubled]
  dsimp only
  rw [if_pos at_, singleQuotes_doubled]

theorem unescape_cons {c : Char} (h : c ≠ '\\') (offset : Nat) (rest : List Char) :
    unescape offset (c :: rest) = (c :: ·) <$> unescape (offset + c.utf8Size) rest := by
  rw [unescape, if_neg h]

/-- An escape by a single letter. -/
theorem unescape_simple {c value : Char} (h : Escape.simple.lookup c = some value) (offset : Nat)
    (rest : List Char) :
    ∃ next, unescape offset ('\\' :: c :: rest) = (value :: ·) <$> unescape next rest := by
  have htake : Escape.take? (c :: rest) = some (value, rest) := by
    rw [Escape.take?, h]
  rw [unescape, if_pos rfl]
  split
  · rename_i hnone
    rw [htake] at hnone
    cases hnone
  · rename_i hsome
    rw [htake] at hsome
    cases hsome
    exact ⟨_, rfl⟩

/-- Escaped characters are read as what they stand for. -/
theorem unescape_backslashed (text : List Char) :
    ∀ offset, unescape offset (text.flatMap backslashed) = .ok text := by
  induction text with
  | nil =>
      intro offset
      rw [List.flatMap_nil, unescape]
  | cons c rest ih =>
      intro offset
      have hsimple : ∀ letter : Char, Escape.simple.lookup letter = some c →
          backslashed c = ['\\', letter] →
          unescape offset (backslashed c ++ rest.flatMap backslashed) = .ok (c :: rest) := by
        intro letter hletter hwritten
        obtain ⟨next, hnext⟩ := unescape_simple hletter offset (rest.flatMap backslashed)
        rw [hwritten, List.cons_append, List.singleton_append, hnext, ih]
        rfl
      rw [List.flatMap_cons]
      by_cases hslash : c = '\\'
      · subst hslash
        exact hsimple '\\' (by decide) rfl
      · by_cases hquote : c = '"'
        · subst hquote
          exact hsimple '"' (by decide) rfl
        · by_cases hline : c = '\n'
          · subst hline
            exact hsimple 'n' (by decide) rfl
          · rw [backslashed_of_ne ⟨hslash, hquote, hline⟩, List.singleton_append, unescape_cons hslash, ih]
            rfl

/-- A string `"..."` has the text that it is written with as its value. -/
theorem regular_written (text : List Char) : regular (writtenRegular text) = .ok text := by
  have hbetween := between?_between [] (text.flatMap backslashed)
  have hsuffix := withoutSuffix_between [] (text.flatMap backslashed)
  rw [List.nil_append, List.nil_append] at hbetween
  rw [List.nil_append] at hsuffix
  rw [regular, writtenRegular, hsuffix, hbetween]
  exact unescape_backslashed text 1

/-- A string `$"..."` has the text that it is written with as its value. -/
theorem interpolated_written (text : List Char) :
    interpolated (writtenInterpolated text) = .ok (some text) := by
  have hbetween := between?_between [] ((text.flatMap backslashed).flatMap (doubled ['{', '}']))
  rw [List.nil_append, List.nil_append] at hbetween
  have hmarks : ∀ c ∈ ['$'], isMark c = true := List.all_eq_true.1 (by decide)
  rw [interpolated, writtenInterpolated, takeWhile_marks hmarks, List.drop_left,
    hbetween]
  dsimp only [Option.getD_some]
  rw [singleBraces?_doubled]
  dsimp only
  rw [if_neg (by decide), unescape_backslashed]
  rfl

/-! ### Raw strings -/

theorem splitLines_append {line : List Char} (h : '\n' ∉ line) (rest : List Char) :
    splitLines (line ++ '\n' :: rest) = line :: splitLines rest := by
  induction line with
  | nil => rfl
  | cons c line ih =>
      obtain ⟨hc, hline⟩ := not_or.1 (mt List.mem_cons.2 h)
      rw [List.cons_append, splitLines, ih hline]
      rintro rfl
      exact hc rfl

theorem splitLines_line {line : List Char} (h : '\n' ∉ line) : splitLines line = [line] := by
  induction line with
  | nil => rfl
  | cons c line ih =>
      obtain ⟨hc, hline⟩ := not_or.1 (mt List.mem_cons.2 h)
      rw [splitLines, ih hline]
      rintro rfl
      exact hc rfl

/-- Lines that end with line feeds, and a last one. -/
theorem splitLines_flatMap {lines : List (List Char)} {last : List Char}
    (hlines : ∀ line ∈ lines, '\n' ∉ line) (hlast : '\n' ∉ last) :
    splitLines (lines.flatMap (· ++ ['\n']) ++ last) = lines ++ [last] := by
  induction lines with
  | nil => exact splitLines_line hlast
  | cons line rest ih =>
      have hassoc : (line :: rest).flatMap (· ++ ['\n']) ++ last =
          line ++ '\n' :: (rest.flatMap (· ++ ['\n']) ++ last) := by simp
      rw [hassoc, splitLines_append (hlines line List.mem_cons_self),
        ih fun l hl => hlines l (List.mem_cons_of_mem _ hl), List.cons_append]

/-- Lines with line feeds between them. -/
theorem splitLines_intercalate {line : List Char} {lines : List (List Char)}
    (hlines : ∀ l ∈ line :: lines, '\n' ∉ l) :
    splitLines (['\n'].intercalate (line :: lines)) = line :: lines := by
  induction lines generalizing line with
  | nil =>
      rw [List.intercalate_singleton]
      exact splitLines_line (hlines line List.mem_cons_self)
  | cons next rest ih =>
      have hassoc : ['\n'].intercalate (line :: next :: rest) =
          line ++ '\n' :: ['\n'].intercalate (next :: rest) := by
        simp [List.intercalate]
      rw [hassoc, splitLines_append (hlines line List.mem_cons_self),
        ih fun l hl => hlines l (List.mem_cons_of_mem _ hl)]

theorem mem_intercalate {c : Char} {lines : List (List Char)} (h : c ∈ ['\n'].intercalate lines) :
    c = '\n' ∨ ∃ line ∈ lines, c ∈ line := by
  induction lines with
  | nil => cases h
  | cons line rest ih =>
      cases rest with
      | nil =>
          rw [List.intercalate_singleton] at h
          exact .inr ⟨line, List.mem_cons_self, h⟩
      | cons next rest =>
          have hassoc : ['\n'].intercalate (line :: next :: rest) =
              line ++ '\n' :: ['\n'].intercalate (next :: rest) := by
            simp [List.intercalate]
          rw [hassoc, List.mem_append, List.mem_cons] at h
          rcases h with h | h | h
          · exact .inr ⟨line, List.mem_cons_self, h⟩
          · exact .inl h
          · exact (ih h).imp_right fun ⟨l, hl, hc⟩ => ⟨l, List.mem_cons_of_mem _ hl, hc⟩

theorem dropEnding?_of_not_mem {c : Char} {text : List Char} (h : c ∉ text) :
    dropEnding? [c] text = none := by
  rw [dropEnding?, if_neg]
  exact fun hsuffix => h ((List.isSuffixOf_iff_suffix.1 hsuffix).subset (List.mem_singleton_self c))

/-- The indentation of the last line is taken off every line. -/
theorem rawLines_indented {indent : List Char} {lines : List (List Char)} (hne : lines ≠ [])
    (hlines : ∀ line ∈ lines, '\n' ∉ line ∧ '\r' ∉ line) (hindent : '\n' ∉ indent ∧ '\r' ∉ indent) :
    rawLines (indented indent lines ++ indent) = ['\n'].intercalate lines := by
  have hplain : ∀ {c : Char}, c ∉ indent → (∀ line ∈ lines, c ∉ line) →
      ∀ line ∈ lines.map (indent ++ ·), c ∉ line := by
    intro c hc hclines l hl
    obtain ⟨line, hline, rfl⟩ := List.mem_map.1 hl
    rw [List.mem_append]
    exact not_or.2 ⟨hc, hclines line hline⟩
  have hnewline := hplain hindent.1 fun line hline => (hlines line hline).1
  have hreturn := hplain hindent.2 fun line hline => (hlines line hline).2
  have hsplit : splitLines (indented indent lines ++ indent) = lines.map (indent ++ ·) ++ [indent] := by
    rw [← splitLines_flatMap hnewline hindent.1, indented, List.flatMap_map]
    simp
  have hcontent : dropEnding? ['\r'] (['\n'].intercalate (lines.map (indent ++ ·))) = none := by
    refine dropEnding?_of_not_mem fun hmem => ?_
    rcases mem_intercalate hmem with heq | ⟨line, hline, hc⟩
    · exact absurd heq (by decide)
    · exact hreturn line hline hc
  have hback : (lines.map (indent ++ ·)).map (unindent indent) = lines := by
    rw [List.map_map]
    refine List.map_id'' (fun line => ?_) lines
    rw [Function.comp_apply, unindent, dropBeginning?_append]
    rfl
  rw [rawLines, hsplit, List.getLast?_append, List.dropLast_concat]
  dsimp only [List.getLast?_singleton, Option.some_or, Option.getD_some]
  rw [hcontent, Option.getD_none]
  cases lines with
  | nil => exact absurd rfl hne
  | cons line rest =>
      rw [List.map_cons] at hnewline
      rw [List.map_cons, splitLines_intercalate hnewline, ← List.map_cons (f := (indent ++ ·)), hback]

/-- What stands between as many quotes on both sides. -/
theorem rawBody?_replicate {count : Nat} {c : Char} (hc : c ≠ '"') (text : List Char) :
    rawBody? (List.replicate count '"' ++ (c :: text ++ List.replicate count '"')) = some (c :: text) := by
  have hquotes : ((List.replicate count '"' ++ (c :: text ++ List.replicate count '"')).takeWhile
      (· = '"')) = List.replicate count '"' := by
    rw [List.takeWhile_append_of_pos (by simp), List.cons_append, List.takeWhile_cons,
      if_neg (by simpa using hc), List.append_nil]
  have hlength : (List.replicate count '"' ++ (c :: text ++ List.replicate count '"')).length - count =
      count + (c :: text).length := by
    simp only [List.length_append, List.length_replicate]
    omega
  rw [rawBody?, hquotes, List.length_replicate, hlength]
  rw [if_pos (Nat.le_add_right _ _), ← List.append_assoc]
  have htake : ((List.replicate count '"' ++ c :: text) ++ List.replicate count '"').take
      (List.replicate count '"' ++ c :: text).length = List.replicate count '"' ++ c :: text :=
      List.take_left
  rw [List.length_append, List.length_replicate] at htake
  rw [htake, List.drop_left' (List.length_replicate ..)]

/-- A raw string over several lines has the lines that it is written with as its value. -/
theorem raw?_written {count : Nat} (hcount : 0 < count) {indent : List Char} {lines : List (List Char)}
    (hne : lines ≠ []) (hlines : ∀ line ∈ lines, '\n' ∉ line ∧ '\r' ∉ line)
    (hindent : '\n' ∉ indent ∧ '\r' ∉ indent) :
    raw? (writtenRaw count indent lines) = some (['\n'].intercalate lines) := by
  obtain ⟨less, rfl⟩ := Nat.exists_eq_add_one_of_ne_zero (Nat.ne_of_gt hcount)
  have hsuffix : withoutSuffix (writtenRaw (less + 1) indent lines) =
      writtenRaw (less + 1) indent lines := by
    rw [writtenRaw, List.replicate_succ' (n := less), ← List.append_assoc, ← List.append_assoc]
    exact withoutSuffix_quote _
  have hdollars : (writtenRaw (less + 1) indent lines).takeWhile (· = '$') = [] := by
    rw [writtenRaw, List.replicate_succ, List.cons_append, List.takeWhile_cons]
    rfl
  rw [raw?, hsuffix, hdollars, List.length_nil, List.drop_zero, writtenRaw, rawBody?_replicate (by decide)]
  have hline : dropBeginning? ['\r', '\n'] ('\n' :: (indented indent lines ++ indent)) = none := rfl
  have hrest := dropBeginning?_append ['\n'] (indented indent lines ++ indent)
  rw [List.singleton_append] at hrest
  rw [Option.bind_eq_bind, Option.bind_some, if_neg fun h => absurd h.1 (Nat.lt_irrefl 0), hline, hrest]
  exact congrArg some (rawLines_indented hne hlines hindent)

end Graft.Literal
