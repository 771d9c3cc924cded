/-
Module: Graft.Parser.Skip
Purpose: Passing tokens that are not kept, with brackets in balance.
Main exports: Skip.groupLength?, Skip.untilLength, Skip.resumeLength, Parser.skipGroup,
  Parser.skipUntil, Parser.synchronize

All three kinds of brackets are counted together.  How far to go is a function of the unread tokens
alone.
-/
import Graft.Parser.Basic

namespace Graft

namespace Skip

/-- The number of open brackets after a token. -/
def depthAfter (depth : Nat) (t : Token) : Nat :=
  if t.kind.isOpener then depth + 1 else if t.kind.isCloser then depth - 1 else depth

/-- How many tokens it takes until no bracket is open any more, at least one; nothing if the tokens
end before that. -/
def groupLength? (depth : Nat) : List Token → Option Nat
  | [] => none
  | t :: rest =>
      if depthAfter depth t = 0 then some 1
      else (groupLength? (depthAfter depth t) rest).map (· + 1)

/-- How many tokens to pass, and whether the tokens end inside brackets. -/
structure Distance where
  count : Nat
  unclosed : Bool
deriving DecidableEq, Repr, Inhabited

/-- A distance that ends where it should. -/
def Distance.closed (count : Nat) : Distance := ⟨count, false⟩

/-- A distance after some more tokens. -/
def Distance.after (count : Nat) (d : Distance) : Distance := ⟨count + d.count, d.unclosed⟩

/-- The distance to the first token outside all brackets that is a terminator or closes a bracket
that is not open. -/
def untilLength (terminators : List TokenKind) (depth : Nat) : List Token → Distance
  | [] => ⟨0, depth ≠ 0⟩
  | t :: rest =>
      if depth = 0 ∧ (t.kind ∈ terminators ∨ t.kind.isCloser) then .closed 0
      else .after 1 (untilLength terminators (depthAfter depth t) rest)

/-- A keyword that starts a declaration, so that reading can go on before it. -/
def startsDeclaration : TokenKind → Bool
  | .classKeyword | .structKeyword | .interfaceKeyword | .enumKeyword | .namespaceKeyword => true
  | _ => false

/-- The distance to where reading can go on after an error: after a `;`, after a group of braces
with the `;` that may follow it, before a `}`, or before a keyword that starts a declaration unless
the error is right there. -/
def resumeLength (moved : Bool) (tokens : List Token) : Distance :=
  match tokens with
  | [] => .closed 0
  | t :: rest =>
      if t.kind = .semicolon then .closed 1
      else if t.kind = .rightBrace then .closed 0
      else if t.kind.isOpener then
        match groupLength? 0 (t :: rest) with
        | none => ⟨rest.length + 1, true⟩
        | some count =>
            let after := rest.drop (count - 1)
            if t.kind = .leftBrace then
              .closed (count + if after.head?.any (·.kind = .semicolon) then 1 else 0)
            else .after count (resumeLength true after)
      else if moved && startsDeclaration t.kind then .closed 0
      else .after 1 (resumeLength true rest)
termination_by tokens.length

end Skip

namespace ParserState

/-- Pass a distance; brackets that the source does not close are an error at its end. -/
def passDistance (s : ParserState) (d : Skip.Distance) : ParserState :=
  let s := s.pass d.count
  if d.unclosed then s.record ⟨.unclosedGroup, s.current.span⟩ else s

/-- Pass the group that the next token opens; a token that opens none is passed alone. -/
def skipGroup (s : ParserState) : ParserState :=
  match Skip.groupLength? 0 s.unread with
  | some count => s.pass count
  | none => s.passDistance ⟨s.unread.length, true⟩

/-- Stop before the first token outside all brackets that is a terminator or closes a bracket that
is not open. -/
def skipUntil (s : ParserState) (terminators : List TokenKind) : ParserState :=
  s.passDistance (Skip.untilLength terminators 0 s.unread)

/-- Go on after an error, and report errors again. -/
def synchronize (s : ParserState) : ParserState :=
  { s with panicking := false }.passDistance (Skip.resumeLength false s.unread)

end ParserState

namespace Parser

/-- Pass the group that the next token opens. -/
def skipGroup : Parser Unit := modify ParserState.skipGroup

/-- Stop before one of the terminators. -/
def skipUntil (terminators : List TokenKind) : Parser Unit := modify (·.skipUntil terminators)

/-- Report an error of an item, go on behind it and yield `fallback` in its place. -/
def recovering {α : Type} (fallback : α) (item : Parser α) : Parser α :=
  tryCatch item fun e => do
    modify fun s => (s.record e).synchronize
    return fallback

end Parser

end Graft
