/-
Module: Graft.Text.Quoted
Purpose: Texts and characters between quotes, with everything that cannot be seen escaped.
Main exports: Text.quoted, Text.quotedChar
-/
import Graft.Text.Visible

namespace Graft.Text

/-- A character between quotes `quote`.  The quote itself, backslashes and what is not visible are
escaped, and so is what would combine with the character before it. -/
def escaped (quote c : Char) : List Char :=
  if c = '\x00' then ['\\', '0']
  else if c = '\t' then ['\\', 't']
  else if c = '\r' then ['\\', 'r']
  else if c = '\n' then ['\\', 'n']
  else if c = '\\' || c = quote then ['\\', c]
  else if isVisible c && !isCombining c then [c]
  else '\\' :: 'u' :: '{' :: Nat.toDigits 16 c.toNat ++ ['}']

/-- A text between double quotes. -/
def quoted (text : String) : String :=
  String.ofList ('"' :: text.toList.flatMap (escaped '"') ++ ['"'])

/-- A character between single quotes. -/
def quotedChar (c : Char) : String := String.ofList ('\'' :: escaped '\'' c ++ ['\''])

end Graft.Text
