/-
Module: Graft.Proofs.Parser.Resumed
Purpose: What stands before a declaration, and a using directive up to its semicolon, is passed as a whole
  after an error.
Main exports: Parser.Skips, Parser.Skips.memberHead, Parser.reads_usingDirective

Recovery looks for the end of a member or for a declaration, outside brackets.  Attributes stand in brackets,
and no modifier, name or type has a token that ends the search.
-/
import Graft.Proofs.Parser.Balance

namespace Graft

open Token (KindAt between)
open Skip (Passed endsMember startsDeclaration)

variable {all : List Token} {i j k : Nat} {kind : TokenKind}

/-! ### Tokens -/

/-- Tokens of types end no member and start no declaration. -/
theorem TokenKind.plain_of_isOfType (h : kind.isOfType = true) :
    endsMember kind = false ∧ startsDeclaration kind = false ∧ kind ≠ .leftBrace := by
  unfold isOfType at h
  split at h <;> first | exact ⟨rfl, rfl, nofun⟩ | cases h

theorem Token.OfType.passed {u : List Token} (h : OfType u) : Passed u := by
  obtain ⟨nested, kinds⟩ := h
  induction nested with
  | nil => exact .nil
  | @plain t rest notOpener notCloser later ih =>
      obtain ⟨notEnd, notStart, -⟩ := TokenKind.plain_of_isOfType (kinds t List.mem_cons_self)
      exact (Passed.single notEnd notOpener notStart).append
        (ih fun u hu => kinds u (List.mem_cons_of_mem _ hu))
  | @group opening closing inner rest closes inside later ih ih' =>
      obtain ⟨-, -, notBrace⟩ := TokenKind.plain_of_isOfType (kinds opening List.mem_cons_self)
      obtain ⟨⟨opener, -⟩, -, closer⟩ := TokenKind.isOpener_of_closer? closes
      have hgroup := (Passed.group opener notBrace closer inside.balanced).append
        (ih' fun u hu => kinds u (by simp [hu]))
      rwa [List.cons_append, List.append_assoc, List.singleton_append] at hgroup

/-- A token of such a class is passed by every search. -/
theorem Token.KindAt.passed (hat : KindAt all i kind) (notEnd : endsMember kind = false)
    (notOpener : kind.isOpener = false) (notStart : startsDeclaration kind = false) :
    Passed (between all i (i + 1)) := by
  obtain ⟨t, ht, rfl⟩ := hat
  rw [Token.between_single ht]
  exact .single notEnd notOpener notStart

namespace Parser

variable {α β : Type} {p : Parser α} {f : α → Parser β}

/-- What is read is passed as a whole after an error. -/
def Skips (all : List Token) (p : Parser α) :
    Prop := ∀ i, Reads all i (fun j _ => Passed (between all i j)) p

namespace Skips

theorem pure {a : α} :
    Skips all (Pure.pure a) := fun _ => Reads.pure (by rw [Token.between_self]; exact .nil)

theorem bind (hp : Skips all p) (hf : ∀ a, Skips all (f a)) : Skips all (p >>= f) := fun i =>
  (hp i).bind fun j a hij _ => (hf a j).mono fun k _ hjk _ hrest hfirst => by
    rw [← Token.between_append hij hjk]
    exact hfirst.append hrest

/-- Stretches that are passed, one behind another. -/
theorem passed_of_chain {list : List α}
    (h : Reads.Chain (fun i j (_ : Option α) => Passed (between all i j)) i j list) :
    Passed (between all i j) := by
  induction h with
  | done _ last => exact last
  | more le first later ih =>
      rw [← Token.between_append le later.le]
      exact first.append ih

theorem many {item : Parser (Option α)} (hitem : Skips all item) : Skips all (many item) := fun i =>
  (Reads.many hitem i).mono fun _ _ _ _ h => passed_of_chain h

/-! ### What stands before a declaration -/

theorem attributeList : Skips all attributeList := fun i =>
  (Even.attributeList_square i).mono fun _ _ _ _ h => by
    obtain ⟨opening, inner, closing, heq, hopening, hclosing, hinner⟩ := h
    rw [heq]
    exact .group (by rw [hopening]; rfl) (by rw [hopening]; decide) (by rw [hclosing]; rfl) hinner

theorem attributeLists : Skips all attributeLists :=
  many fun i => .check (by decide) fun _ _ =>
    .ite (fun _ => (attributeList i).map fun _ _ _ _ h => h) fun _ => pure i

theorem modifiers : Skips all modifiers := by
  refine (many fun i => .get fun s hs => .ite (fun h => ?_) fun _ => pure i).bind fun _ => pure
  refine Reads.advance.map fun j t _ _ hj => ?_
  rcases Even.kindAt_of_isModifier hs h with hat | hat
  · rw [hj.2 hat.lt]
    exact hat.passed rfl rfl rfl
  · rw [hj.2 hat.lt]
    exact hat.passed rfl rfl rfl

theorem memberHead : Skips all memberHead := fun i => .peek fun _ _ =>
  (attributeLists.bind fun _ => modifiers.bind fun _ => pure) i

end Skips

/-! ### Using directives -/

/-- Tokens that are passed, up to a semicolon. -/
def Terminated (tokens : List Token) : Prop :=
  ∃ passed semicolon, tokens = passed ++ [semicolon] ∧ Passed passed ∧ semicolon.kind = .semicolon

theorem Terminated.resumeLength_eq {tokens : List Token} (h : Terminated tokens) (rest : List Token) :
    Skip.resumeLength true (tokens ++ rest) = .closed tokens.length := by
  obtain ⟨passed, semicolon, rfl, hpassed, hkind⟩ := h
  rw [List.append_assoc, hpassed, List.singleton_append, Skip.resumeLength_semicolon hkind,
    List.length_append]
  rfl

namespace TakesFrom

variable {s : ParserState} {Q : List Token → Prop}

theorem passed (hp : TakesFrom s (OneOf kind) p) (notEnd : endsMember kind = false)
    (notOpener : kind.isOpener = false) (notStart : startsDeclaration kind = false) : TakesFrom s Passed p :=
  hp.mono fun _ ⟨_, hu, ht⟩ => hu ▸ .single (ht ▸ notEnd) (ht ▸ notOpener) (ht ▸ notStart)

theorem terminated (hp : TakesFrom s Passed p) (hf : ∀ a t, TakesFrom t Terminated (f a)) :
    TakesFrom s Terminated (p >>= f) :=
  hp.bind (fun a t _ => hf a t) fun u v hu ⟨w, semicolon, hv, hw, hkind⟩ =>
  ⟨u ++ w, semicolon, by rw [hv, List.append_assoc], hu.append hw, hkind⟩

end TakesFrom

theorem takes_usingKind : Takes Passed usingKind := by
  refine fun s => .get <| .ite (fun h => ?_) fun _ => .ite (fun h => ?_) fun _ => .pure .nil
  · rw [Bool.and_eq_true, decide_eq_true_eq] at h
    exact .last (.passed (.advance (by decide) (decide_eq_true h.1)) rfl rfl rfl) fun _ _ => .pure rfl
  · rw [Bool.and_eq_true, decide_eq_true_eq] at h
    refine (TakesFrom.passed .ident rfl rfl rfl).bind (fun name t hname => ?_) fun _ _ => .append
    -- behind the name stands the token that was looked at
    have hequal : t.check .equal = true := by
      rw [ident_eq (kind_of_check h.1)] at hname
      cases hname
      rw [ParserState.check, current_pass, h.2]
      rfl
    exact .last (.passed (.advance (by decide) hequal) rfl rfl rfl) fun _ _ => .pure rfl

/-- A using directive is passed up to its semicolon. -/
theorem takes_usingDirective : Takes Terminated usingDirective := by
  refine fun s => .peek <| .terminated (.get <| .ite (fun h => ?_) fun _ => .pure .nil) fun _ t => ?_
  · have hword : s.check .identifier = true := (Bool.and_eq_true_iff.1 h).1
    exact .map (.passed (.advance (by decide) hword) rfl rfl rfl)
  · refine .terminated (.passed (.expect (by decide)) rfl rfl rfl) fun _ u =>
      .terminated (takes_usingKind u) fun _ v =>
      .terminated ((Takes.type v).mono fun _ h => h.passed) fun _ w => .last (Q := Terminated) ?_ fun _ _ =>
        .spanFrom <| .pure rfl
    exact (TakesFrom.expect (by decide)).mono fun u ⟨semicolon, hu, hkind⟩ =>
      ⟨[], semicolon, hu, .nil, hkind⟩

theorem reads_usingDirective (i : Nat) :
    Reads all i (fun j _ => Terminated (between all i j)) usingDirective :=
  .of_takes takes_usingDirective (Even.usingDirective i)

end Parser

end Graft
