/-
Module: Graft.Token.Operator
Purpose: Brackets, separators and operators, by longest match.
Main exports: Operator.table, Operator.match?
-/
import Graft.Token.Kind

namespace Graft.Operator

/-- The operators of three characters. -/
def triples : List (List Char × TokenKind) :=
  [(['?', '?', '='], .punctuation), (['<', '<', '='], .punctuation)]

/-- The operators of two characters. -/
def pairs : List (List Char × TokenKind) :=
  [([':', ':'], .doubleColon), (['?', '?'], .punctuation), (['=', '>'], .arrow),
   (['=', '='], .punctuation), (['<', '<'], .punctuation), (['<', '='], .punctuation),
   (['+', '+'], .punctuation), (['+', '='], .punctuation), (['-', '-'], .punctuation),
   (['-', '='], .punctuation), (['-', '>'], .punctuation), (['*', '='], .punctuation),
   (['!', '='], .punctuation), (['%', '='], .punctuation), (['^', '='], .punctuation),
   (['/', '='], .punctuation), (['&', '&'], .punctuation), (['&', '='], .punctuation),
   (['|', '|'], .punctuation), (['|', '='], .punctuation)]

/-- The operators of one character.  `>` starts no longer one, so that nested type argument lists
close one level at a time. -/
def singles : List (List Char × TokenKind) :=
  [(['('], .leftParen), ([')'], .rightParen), (['['], .leftBracket), ([']'], .rightBracket),
   (['{'], .leftBrace), (['}'], .rightBrace), ([';'], .semicolon), ([','], .comma), (['.'], .dot),
   (['~'], .tilde), (['>'], .greater), ([':'], .colon), (['?'], .question), (['='], .equal),
   (['<'], .less), (['+'], .plus), (['-'], .minus), (['*'], .star), (['!'], .punctuation),
   (['%'], .punctuation), (['^'], .punctuation), (['/'], .punctuation), (['&'], .punctuation),
   (['|'], .punctuation)]

/-- Every operator, the longer ones first. -/
def table : List (List Char × TokenKind) := triples ++ pairs ++ singles

/-- The longest operator at the start of a text. -/
def match? (text : List Char) : Option (List Char × TokenKind) :=
  table.find? fun entry => entry.1.isPrefixOf text

example : match? "??=x".toList = some (['?', '?', '='], .punctuation) := by decide
example : match? ">>=".toList = some (['>'], .greater) := by decide

/-- No operator is empty. -/
theorem length_pos_of_mem_table : ∀ entry ∈ table, 0 < entry.1.length := by decide

/-- What is matched is an operator and the text starts with it. -/
theorem of_match?_eq_some {text : List Char} {entry : List Char × TokenKind}
    (h : match? text = some entry) : entry ∈ table ∧ entry.1 <+: text :=
  ⟨List.mem_of_find?_eq_some h, List.isPrefixOf_iff_prefix.1 (List.find?_eq_some_iff_append.1 h).1⟩

end Graft.Operator
