/-
Module: Graft.Literal.Escape
Purpose: Backslash escapes in the text of a string or character literal.
Main exports: Literal.Escape.take?, Literal.unescape
-/
import Graft.Text.Bytes
import Graft.Literal.Number

namespace Graft.Literal

namespace Escape

/-- The characters that one letter after a backslash stands for. -/
def simple : List (Char × Char) :=
  [('\'', '\''), ('"', '"'), ('\\', '\\'), ('0', '\x00'), ('a', '\x07'), ('b', '\x08'),
   ('e', '\x1b'), ('f', '\x0c'), ('n', '\n'), ('r', '\r'), ('t', '\t'), ('v', '\x0b')]

/-- The letters that announce the code point of a character in hexadecimal, each with the least and
the greatest number of digits. -/
def coded : List (Char × Nat × Nat) := [('u', 4, 4), ('U', 8, 8), ('x', 1, 4)]

/-- The value of a hexadecimal digit. -/
def digitValue (c : Char) : Nat :=
  if c.isDigit then c.toNat - '0'.toNat
  else if 'a' ≤ c && c ≤ 'f' then c.toNat - 'a'.toNat + 10
  else c.toNat - 'A'.toNat + 10

/-- The number that a list of hexadecimal digits spells. -/
def hexValue (digits : List Char) : Nat :=
  digits.foldl (fun value c => value * 16 + digitValue c) 0

/-- The character with a code point. -/
def charOfNat? (n : Nat) : Option Char :=
  if h : n.isValidChar then some (Char.ofNatAux n h) else none

/-- The character that hexadecimal digits spell, and the text after them. -/
def takeCoded? (least most : Nat) (text : List Char) : Option (Char × List Char) :=
  let digits := (text.take most).takeWhile Number.isHexDigit
  if digits.length < least then none
  else (charOfNat? (hexValue digits)).map (·, text.drop digits.length)

/-- The character that the escape in a text after its backslash stands for, and the text after the
escape. -/
def take? : List Char → Option (Char × List Char)
  | [] => none
  | c :: rest =>
      match simple.lookup c, coded.lookup c with
      | some value, _ => some (value, rest)
      | none, some (least, most) => takeCoded? least most rest
      | none, none => none

/-- An escape takes at least one character. -/
theorem length_of_take? {text rest : List Char} {c : Char} (h : take? text = some (c, rest)) :
    rest.length < text.length := by
  cases text with
  | nil => simp [take?] at h
  | cons x text =>
      simp only [take?] at h
      split at h
      · cases h; simp
      · simp only [takeCoded?] at h
        split at h
        · cases h
        · obtain ⟨_, _, heq⟩ := Option.map_eq_some_iff.1 h
          cases heq
          simp only [List.length_drop, List.length_cons]
          omega
      · cases h

end Escape

/-- The text that a text with escapes stands for, or the place in bytes of the first escape that
stands for nothing; `offset` is the place where the text starts. -/
def unescape (offset : Nat) (text : List Char) : Except Nat (List Char) :=
  match text with
  | [] => .ok []
  | c :: rest =>
      if c = '\\' then
        match h : Escape.take? rest with
        | none => .error offset
        | some (value, after) =>
            have := Escape.length_of_take? h
            (value :: ·) <$>
              unescape (offset + 1 + (Text.byteLength rest - Text.byteLength after)) after
      else (c :: ·) <$> unescape (offset + c.utf8Size) rest
termination_by text.length

end Graft.Literal
