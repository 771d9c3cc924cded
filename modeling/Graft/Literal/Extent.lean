/-
Module: Graft.Literal.Extent
Purpose: How far a string or character literal reaches.
Main exports: Literal.Inside, Literal.move, Literal.reach

A string with holes may hold further strings, which may have holes of their own.  The literal is
read once from left to right with a stack of the levels that are open.  `move` says what one
character does to the innermost level, `reach` applies it until the outermost level closes.
-/
import Graft.Text.Identifier

namespace Graft.Literal

/-- A character literal inside a hole that the end of its line cuts short: its opening quote is the
character number `first` of the whole literal, and `stop` is the number of the first character that
does not belong to it. -/
structure Cut where
  first : Nat
  stop : Nat
deriving DecidableEq, Repr, Inhabited

/-- What the next character stands in. -/
inductive Inside where
  /-- The text of a string between its quotes. -/
  | text (verbatim holes : Bool)
  /-- The opening quotes of a raw string, of which `count` are read. -/
  | quotes (count : Nat)
  /-- A raw string that `quotes` quotes close; `run` of them were just read. -/
  | raw (quotes run : Nat)
  /-- The marks before the opening quote of a nested string. -/
  | marks (verbatim holes : Bool)
  /-- A hole with `depth` open braces of its own. -/
  | hole (depth : Nat)
  /-- A character literal whose opening quote is the character number `first`. -/
  | char (first : Nat)
deriving DecidableEq, Repr, Inhabited

/-- What a character does to the innermost level. -/
inductive Move where
  /-- Pass it and the next `extra` characters; the level is now `inside`. -/
  | pass (extra : Nat) (inside : Inside)
  /-- Pass it and open a further level. -/
  | enter (nested : Inside)
  /-- Pass it and close the level. -/
  | leave
  /-- It ends the line of a character literal, which is cut short. -/
  | cut (first : Nat)
  /-- It cannot stand here, so that the whole literal stays open. -/
  | fail
deriving DecidableEq, Repr, Inhabited

/-- A backslash takes the next character with it unless that ends the line. -/
def escaped : List Char → Nat
  | [] => 0
  | c :: _ => if c = '\n' then 0 else 1

/-- What a quote opens: a raw string if two more follow, else the text of a plain string. -/
def opened (verbatim holes : Bool) (ahead : List Char) : Inside :=
  if ['"', '"'].isPrefixOf ahead then .quotes 1 else .text verbatim holes

/-- What the character `c`, number `count` of the literal and followed by `ahead`, does. -/
def move (inside : Inside) (count : Nat) (c : Char) (ahead : List Char) : Move :=
  match inside with
  | .text verbatim holes =>
      if c = '"' then
        if verbatim && ahead.head? = some '"' then .pass 1 inside else .leave
      else if c = '{' && holes then
        if ahead.head? = some '{' then .pass 1 inside else .enter (.hole 0)
      else if verbatim then .pass 0 inside
      else if c = '\n' then .fail
      else if c = '\\' then .pass (escaped ahead) inside
      else .pass 0 inside
  | .quotes n => if c = '"' then .pass 0 (.quotes (n + 1)) else .pass 0 (.raw n 0)
  | .raw n run =>
      if c = '"' then
        if run + 1 = n then .leave else .pass 0 (.raw n (run + 1))
      else .pass 0 (.raw n 0)
  | .marks verbatim holes =>
      if c = '@' && !verbatim then .pass 0 (.marks true holes)
      else if c = '$' then .pass 0 (.marks verbatim true)
      else if c = '"' then .pass 0 (opened verbatim holes ahead)
      else .fail
  | .hole depth =>
      if c = '{' then .pass 0 (.hole (depth + 1))
      else if c = '}' then
        if depth = 0 then .leave else .pass 0 (.hole (depth - 1))
      else if c = '"' then .enter (opened false false ahead)
      else if c = '@' then
        if ahead.head?.any Text.isIdentStart then .pass 0 inside else .enter (.marks true false)
      else if c = '$' then .enter (.marks false true)
      else if c = '\'' then .enter (.char count)
      else .pass 0 inside
  | .char first =>
      if c = '\n' then .cut first
      else if c = '\'' then .leave
      else if c = '\\' then .pass (escaped ahead) inside
      else .pass 0 inside

/-- An open level and the cut literals found in it so far. -/
structure Level where
  inside : Inside
  cuts : List Cut
deriving DecidableEq, Repr, Inhabited

namespace Level

/-- A level that was just opened. -/
def fresh (inside : Inside) : Level := ⟨inside, []⟩

/-- The level after one inside it has closed and left its cuts to it. -/
def absorb (level : Level) (cuts : List Cut) : Level := { level with cuts := level.cuts ++ cuts }

end Level

/-- How far a literal reaches: the number of its characters, whether it is closed, and the cut
character literals inside it that are to be reported. -/
structure Extent where
  count : Nat
  closed : Bool
  cuts : List Cut
deriving DecidableEq, Repr, Inhabited

/-- A literal that ends without being closed.  What was found inside a nested string counts only if
that string was closed, so just the two outermost levels report. -/
def Extent.unclosed (stack : List Level) (count : Nat) : Extent :=
  ⟨count, false, (stack.reverse.take 2).flatMap Level.cuts⟩

/-- Read a literal from character number `count` on; `stack` holds its open levels, the innermost
first. -/
def reach (stack : List Level) (count : Nat) (text : List Char) : Extent :=
  match stack, text with
  | [], _ => ⟨count, true, []⟩
  | ⟨.char first, cuts⟩ :: outside :: outer, [] =>
      .unclosed (outside.absorb (cuts ++ [⟨first, count⟩]) :: outer) count
  | stack, [] => .unclosed stack count
  | level :: outer, c :: rest =>
      match move level.inside count c rest with
      | .pass extra inside =>
          reach ({ level with inside } :: outer) (count + 1 + extra) (rest.drop extra)
      | .enter nested => reach (.fresh nested :: level :: outer) (count + 1) rest
      | .leave =>
          match outer with
          | [] => ⟨count + 1, true, level.cuts⟩
          | outside :: outer => reach (outside.absorb level.cuts :: outer) (count + 1) rest
      | .cut first =>
          match outer with
          | [] => .unclosed [level] count
          | outside :: outer =>
              reach (outside.absorb (level.cuts ++ [⟨first, count⟩]) :: outer) (count + 1) rest
      | .fail => .unclosed (level :: outer) count
termination_by text.length
decreasing_by all_goals simp_wf; try omega

/-- Reading never goes back. -/
theorem le_count_reach (stack : List Level) (count : Nat) (text : List Char) :
    count ≤ (reach stack count text).count := by
  fun_induction reach stack count text <;> first | omega | simp [Extent.unclosed]

/-- The letters `u8` after a string ask for UTF-8, unless they start a longer word. -/
def suffixLength : List Char → Nat
  | u :: '8' :: rest =>
      if (u = 'u' || u = 'U') && !(rest.head?.any Text.isIdentContinue) then 2 else 0
  | _ => 0

/-- The marks before a string's opening quote: how many they are, whether they say that backslashes
are ordinary characters and whether they allow holes. -/
structure Marks where
  count : Nat
  verbatim : Bool
  holes : Bool
deriving DecidableEq, Repr, Inhabited

/-- Read the marks at the start of a text: dollars, and at most one `@`. -/
def readMarks (marks : Marks) : List Char → Marks
  | '@' :: rest =>
      if marks.verbatim then marks
      else readMarks { marks with count := marks.count + 1, verbatim := true } rest
  | '$' :: rest => readMarks { marks with count := marks.count + 1, holes := true } rest
  | _ => marks

theorem le_count_readMarks (marks : Marks) (text : List Char) :
    marks.count ≤ (readMarks marks text).count := by
  fun_induction readMarks marks text <;> simp_all <;> omega

end Graft.Literal
