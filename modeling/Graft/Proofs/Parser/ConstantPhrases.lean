/-
Module: Graft.Proofs.Parser.ConstantPhrases
Purpose: The grammar of constant expressions, and that an expression ends where a search for its end does.
Main exports: ConstantPhrase, Parser.takes_additive, Parser.consumes_additive, ConstantPhrase.hidden,
  Parser.expr_extent

An expression is tried as a constant first, with all tokens ahead in sight, and is passed by counting
brackets if that fails.  What is read as a constant is a phrase of the grammar, and each phrase before a
terminator is read as a whole.  The search does not stop inside a phrase: its commas stand in brackets.
-/
import Graft.Proofs.Parser.Commas
import Graft.Proofs.Parser.IntegerLiterals
import Graft.Proofs.Parser.TypeGrammar

namespace Graft

open Graft.Parser (literalValue?)

/-! ### Phrases -/

/-- The parts of constant expressions. -/
inductive ConstantPart where
  | sum
  | more
  | operand
  | atom

/-- Tokens that are a part of a constant expression.  It is a sum, an operand has any number of minus signs
in front of it, and what is behind these is a literal that has a value, a name without type arguments,
`nameof` of a name, or an expression in parentheses. -/
inductive ConstantPhrase : ConstantPart → List Token → Prop where
  | sum {u w : List Token} (first : ConstantPhrase .operand u) (later : ConstantPhrase .more w) :
      ConstantPhrase .sum (u ++ w)
  | done : ConstantPhrase .more []
  | plus {sign : Token} {u w : List Token} (hsign : sign.kind = .plus) (operand : ConstantPhrase .operand u)
      (later : ConstantPhrase .more w) : ConstantPhrase .more (sign :: (u ++ w))
  | minus {sign : Token} {u : List Token} (hsign : sign.kind = .minus) (inner : ConstantPhrase .operand u) :
      ConstantPhrase .operand (sign :: u)
  | atom {u : List Token} (h : ConstantPhrase .atom u) : ConstantPhrase .operand u
  | literal {a : Token} {value : LiteralValue} (hvalue : literalValue? a = .ok (some value)) :
      ConstantPhrase .atom [a]
  | name {u : List Token} (h : TypePhrase (.name false) u) : ConstantPhrase .atom u
  | nameOf {word opening closing : Token} {u : List Token} (kind : word.kind = .identifier)
      (hword : word.lexeme = "nameof") (hopening : opening.kind = .leftParen)
      (target : TypePhrase (.name true) u)
      (hclosing : closing.kind = .rightParen) : ConstantPhrase .atom (word :: opening :: (u ++ [closing]))
  | paren {opening closing : Token} {u : List Token} (hopening : opening.kind = .leftParen)
      (inside : ConstantPhrase .sum u) (hclosing : closing.kind = .rightParen) :
      ConstantPhrase .atom (opening :: (u ++ [closing]))

/-- Tokens of these classes may have a value. -/
def TokenKind.hasValue : TokenKind → Bool
  | trueKeyword | falseKeyword | nullKeyword => true
  | kind => kind.isLiteral

theorem Parser.hasValue_of_literalValue? {a : Token} {value : LiteralValue}
    (h : literalValue? a = .ok (some value)) : a.kind.hasValue = true := by
  unfold literalValue? at h
  cases hkind : a.kind <;> rw [hkind] at h <;> first | rfl | cases h

/-- A token with a value is neither a sign nor a bracket nor the end of something. -/
theorem TokenKind.ne_of_hasValue {kind other : TokenKind} (h : kind.hasValue = true)
    (hother : other.hasValue = false) :
    kind ≠ other := by
  rintro rfl
  rw [h] at hother
  cases hother

namespace Parser

variable {α : Type} {s t : ParserState} {Q : List Token → Prop}

/-! ### What is passed is a phrase -/

/-- Where something is left to read, the next token is passed. -/
theorem TakesFrom.advance_current (h : s.atEnd = false) : TakesFrom s (· = [s.current]) Parser.advance := by
  obtain ⟨t, rest, hunread, rfl⟩ := ParserState.exists_unread h
  refine .peek <| Outcome.modify <| .pure ⟨[s.current], ?_, rfl⟩
  rw [unread_pass_one hunread]
  exact hunread

theorem takes_literal : Takes (ConstantPhrase .atom) literal := by
  refine fun s => .peek ?_
  split
  · exact Outcome.modify <| .throw trivial
  · exact .get .throw
  · rename_i value hvalue
    have hne : s.current.kind ≠ .endOfFile := TokenKind.ne_of_hasValue (hasValue_of_literalValue? hvalue) rfl
    refine .mono (.last (.advance_current (ParserState.atEnd_of_check hne (decide_eq_true rfl))) fun _ _ =>
      .pure rfl) ?_
    rintro _ rfl
    exact .literal hvalue

section

variable {inner : Parser Expr} (hinner : Takes (ConstantPhrase .sum) inner)
include hinner

theorem takes_primary : Takes (ConstantPhrase .atom) (primary inner) := by
  refine fun s => .peek <| .ite (fun hkind => ?_) fun _ => .get <| .ite (fun h => ?_) fun _ =>
    .ite (fun _ => ?_) fun _ => takes_literal s
  · refine .mono (.ledBy (.advance (by decide) (decide_eq_true hkind)) fun _ t _ =>
      .endedBy (hinner t) fun _ _ =>
      .last (.expect (show TokenKind.rightParen ≠ .endOfFile by decide)) fun _ _ => .spanFrom <|
        .pure rfl) ?_
    rintro _ ⟨_, _, rfl, hopening, _, _, rfl, hinside, hclosing⟩
    exact .paren hopening hinside hclosing
  · simp only [isNameOf, ParserState.checkWord, Bool.and_eq_true, decide_eq_true_eq] at h
    obtain ⟨⟨kind, hword⟩, hparen⟩ := h
    have hend := ParserState.atEnd_of_check (show TokenKind.identifier ≠ .endOfFile by decide)
      (decide_eq_true kind)
    refine .bind (R := LedBy .leftParen (EndedBy .rightParen (TypePhrase (.name true))))
      (.advance_current hend) (fun _ t ht => ?_) ?_
    · cases ht
      have hcheck : (s.pass 1).check .leftParen = true := by
        rw [ParserState.check, current_pass, hparen]
        rfl
      exact .ledBy (.advance (by decide) hcheck) fun _ t _ => .endedBy (takes_namedType true t) fun _ _ =>
        .last (.expect (show TokenKind.rightParen ≠ .endOfFile by decide)) fun _ _ => .spanFrom <| .pure rfl
    · rintro _ _ rfl ⟨_, _, rfl, hopening, _, _, rfl, htarget, hclosing⟩
      exact .nameOf kind hword hopening htarget hclosing
  · exact .map (.mono (takes_namedType false s) fun _ => .name)

theorem takes_unary : Takes (ConstantPhrase .operand) (unary inner) := by
  refine fun s => TakesFrom.bind (Q := fun signs => ∀ sign ∈ signs, sign.kind = .minus)
    (takes_many (P := OneOf .minus) (fun _ => .eat? (by decide)) nofun ?_ s)
    (fun _ t _ => .last (takes_primary hinner t) fun _ _ => .pure rfl) fun signs u hsigns hu => ?_
  · rintro _ w ⟨sign, rfl, hsign⟩ hw
    exact List.forall_mem_cons.2 ⟨hsign, hw⟩
  · induction signs with
    | nil => exact .atom hu
    | cons sign signs ih =>
        obtain ⟨hsign, hsigns⟩ := List.forall_mem_cons.1 hsigns
        exact .minus hsign (ih hsigns)

theorem takes_additiveOf : Takes (ConstantPhrase .sum) (additiveOf inner) := by
  refine fun s => TakesFrom.bind (takes_unary hinner s) (fun _ t _ => .last
    (takes_many (P := LedBy .plus (ConstantPhrase .operand)) (fun v => ?_) .done ?_ t) fun _ _ => .pure rfl)
    fun _ _ => .sum
  · exact .eat (by decide) (.ite (fun _ => .map (takes_unary hinner _)) (absurd rfl))
      (.ite nofun fun _ => .pure rfl)
  · rintro _ w ⟨sign, u, rfl, hsign, hu⟩ hw
    exact .plus hsign hu hw

end

/-- What a constant expression is read from is the phrase of one. -/
theorem takes_additive : Takes (ConstantPhrase .sum) additive :=
  .fix (fun _ hinner _ => takes_additiveOf (hinner ())) ()

/-! ### Phrases are read -/

/-- A constant expression may go on with these, or is not one before them. -/
def constantGoesOn : List TokenKind := [.plus, .leftParen] ++ nameGoesOn

/-- An operand may go on with these, or is not one before them. -/
def operandGoesOn : List TokenKind := .leftParen :: nameGoesOn

/-- How the tokens of a part are read. -/
def IsRead : ConstantPart → List Token → Prop
  | .sum, u => Consumes constantGoesOn (fun _ => True) additive u
  | .more, w => ∀ s v, s.unread = w ++ v → (s.pass w.length).current.kind ∉ constantGoesOn →
      s.current.kind ∉ operandGoesOn ∧ ∃ list,
      Items (whenever (eat .plus) (unary additive)) s list (s.pass w.length)
  | .operand, u => u ≠ [] ∧ ∀ s v, s.unread = u ++ v → (s.pass u.length).current.kind ∉ operandGoesOn →
      ∃ signs t e, Items (eat? .minus) s signs t ∧ primary additive t = .ok e (s.pass u.length)
  | .atom, u => (∃ a rest, u = a :: rest ∧ a.kind ≠ .minus) ∧
      Consumes operandGoesOn (fun _ => True) (primary additive) u

theorem IsRead.unary {u : List Token} (h : IsRead .operand u) :
    Consumes operandGoesOn (fun _ => True) (unary additive) u := by
  intro s v hunread hnext
  obtain ⟨signs, t, e, hsigns, hprimary⟩ := h.2 s v hunread hnext
  exact ⟨_, (bind_eq hsigns.many_eq _).trans (bind_eq hprimary _), trivial⟩

/-- A name is not read as `nameof` where no parenthesis comes behind it. -/
theorem consumes_name {u : List Token} (h : TypePhrase (.name false) u) :
    Consumes operandGoesOn (fun _ => True) (primary additive) u := by
  intro s v hunread hnext
  obtain ⟨name, hname, -⟩ := consumes_namedType h s v hunread fun hmem => hnext (List.mem_cons_of_mem _ hmem)
  obtain ⟨a, rest, rfl, kind, hrest⟩ := h.starts_plainName
  have hkind := (kind_current hunread).trans kind
  have hahead : (s.ahead 1).kind ≠ .leftParen := by
    rw [← current_pass]
    cases rest with
    | nil => exact fun heq => hnext (heq ▸ List.mem_cons_self)
    | cons b rest =>
        rw [kind_current (unread_cons hunread)]
        rcases hrest b rfl with hb | hb <;> rw [hb] <;> decide
  refine exists_of_outcome <| .peek <| .ite (fun heq => ?_) fun _ => .get <|
    .ite (fun hnameOf => ?_) fun _ =>
    .ite (fun _ => .of_eq (map_eq hname _) ⟨rfl, trivial⟩) fun hne => absurd hkind hne
  · rw [hkind] at heq
    cases heq
  · rw [isNameOf, Bool.and_eq_true, decide_eq_true_eq] at hnameOf
    exact absurd hnameOf.2 hahead

/-- `nameof` is read with its name. -/
theorem consumes_nameOf {word opening closing : Token} {u : List Token} (kind : word.kind = .identifier)
    (hword : word.lexeme = "nameof") (hopening : opening.kind = .leftParen)
    (target : TypePhrase (.name true) u) (hclosing : closing.kind = .rightParen) :
    Consumes operandGoesOn (fun _ => True) (primary additive) (word :: opening :: (u ++ [closing])) := by
  intro s v hunread _
  have hbehind := unread_cons hunread
  obtain ⟨hinside, hend⟩ := unread_enclosed hbehind
  have hkind := (kind_current hunread).trans kind
  have hnameOf : isNameOf s = true := by
    have hahead : (s.ahead 1).kind = .leftParen := by rw [← current_pass, kind_current hbehind, hopening]
    rw [isNameOf, ParserState.checkWord, current_of_unread hunread]
    simp [kind, hword, hahead]
  obtain ⟨name, hname, -⟩ := consumes_namedType target _ _ hinside (by rw [hend, hclosing]; decide)
  rw [pass_cons, pass_enclosed]
  refine exists_of_outcome <| .peek <| .ite (fun heq => ?_) fun _ => .get <|
    .ite (fun _ => ?_) (absurd hnameOf)
  · rw [hkind] at heq
    cases heq
  · exact .after (p := advance) rfl <| .after (p := advance) rfl <| .after hname <|
      .after (expect_eq (decide_eq_true (hend.trans hclosing))) <| .spanFrom <| .pure ⟨rfl, trivial⟩

/-- An expression in parentheses is read with them. -/
theorem consumes_paren {opening closing : Token} {u : List Token} (hopening : opening.kind = .leftParen)
    (hinner : Consumes constantGoesOn (fun _ => True) additive u) (hclosing : closing.kind = .rightParen) :
    Consumes operandGoesOn (fun _ => True) (primary additive) (opening :: (u ++ [closing])) := by
  intro s v hunread _
  obtain ⟨hinside, hend⟩ := unread_enclosed hunread
  obtain ⟨e, he, -⟩ := hinner _ _ hinside (by rw [hend, hclosing]; decide)
  rw [pass_enclosed]
  refine exists_of_outcome <| .peek <| .ite (fun _ => ?_) fun hne =>
    absurd ((kind_current hunread).trans hopening) hne
  exact .after (p := advance) rfl <| .after he <|
    .after (expect_eq (decide_eq_true (hend.trans hclosing))) <| .spanFrom <| .pure ⟨rfl, trivial⟩

/-- A literal that has a value is read. -/
theorem consumes_literal {a : Token} {value : LiteralValue} (hvalue : literalValue? a = .ok (some value)) :
    Consumes operandGoesOn (fun _ => True) (primary additive) [a] := by
  intro s v hunread _
  rw [← current_of_unread hunread] at hvalue
  have hvalued := hasValue_of_literalValue? hvalue
  have hliteral := primary_literal additive (TokenKind.ne_of_hasValue hvalued rfl)
    (TokenKind.ne_of_hasValue hvalued rfl)
  exact ⟨_, hliteral.trans (literal_eq hvalue), trivial⟩

theorem isRead {part : ConstantPart} {u : List Token} (h : ConstantPhrase part u) : IsRead part u := by
  induction h with
  | @sum u w _ _ ih ih' =>
      intro s v hunread hnext
      have hbehind := unread_append hunread
      rw [pass_append] at hnext ⊢
      obtain ⟨hother, list, hlist⟩ := ih' _ v hbehind hnext
      obtain ⟨e, he, -⟩ := ih.unary s (w ++ v) (by rw [hunread, List.append_assoc]) hother
      exact ⟨_, (congrFun (additive_recurs.eq ()) s).trans ((bind_eq he _).trans (bind_eq hlist.many_eq _)),
        trivial⟩
  | done =>
      intro s v _ hnext
      rw [List.length_nil, ParserState.pass_zero] at hnext ⊢
      refine ⟨fun hmem => hnext (List.mem_cons_of_mem _ hmem), [], .done (whenever_eat_eq_none ?_)⟩
      exact decide_eq_false fun heq => hnext (heq ▸ List.mem_cons_self)
  | @plus sign u w hsign _ _ ih ih' =>
      intro s v hunread hnext
      have hkind := (kind_current hunread).trans hsign
      have hinside := unread_cons hunread
      have hbehind := unread_append hinside
      have hlength : s.pass (sign :: (u ++ w)).length = ((s.pass 1).pass u.length).pass w.length := by
        rw [pass_cons, pass_append]
      rw [hlength] at hnext ⊢
      obtain ⟨hother, list, hlist⟩ := ih' _ v hbehind hnext
      obtain ⟨e, he, -⟩ := ih.unary (s.pass 1) (w ++ v) (by rw [hinside, List.append_assoc]) hother
      refine ⟨by rw [hkind]; decide, e :: list, .more (whenever_eat_eq (decide_eq_true hkind) he) ?_ hlist⟩
      have hshort := ParserState.pass_lt_of_check (show TokenKind.plus ≠ .endOfFile by decide)
        (decide_eq_true hkind)
      rw [ParserState.unread_pass, List.length_drop]
      omega
  | @minus sign u hsign _ ih =>
      refine ⟨List.cons_ne_nil _ _, fun s v hunread hnext => ?_⟩
      have hcheck : s.check .minus = true := decide_eq_true ((kind_current hunread).trans hsign)
      rw [pass_cons] at hnext ⊢
      obtain ⟨signs, t, e, hsigns, hprimary⟩ := ih.2 _ v (unread_cons hunread) hnext
      exact ⟨_, t, e, .more (eat?_eq_some hcheck) (ParserState.pass_lt_of_check (by decide) hcheck) hsigns,
        hprimary⟩
  | @atom u _ ih =>
      obtain ⟨⟨a, rest, rfl, hne⟩, hconsumes⟩ := ih
      refine ⟨List.cons_ne_nil _ _, fun s v hunread hnext => ?_⟩
      have hcheck : s.check .minus = false :=
        decide_eq_false fun heq => hne ((kind_current hunread).symm.trans heq)
      obtain ⟨e, he, -⟩ := hconsumes s v hunread hnext
      exact ⟨[], s, e, .done (eat?_eq_none hcheck), he⟩
  | literal hvalue =>
      exact ⟨⟨_, [], rfl, TokenKind.ne_of_hasValue (hasValue_of_literalValue? hvalue) rfl⟩,
        consumes_literal hvalue⟩
  | name h =>
      obtain ⟨a, rest, hu, kind, -⟩ := h.starts_plainName
      exact ⟨⟨a, rest, hu, by rw [kind]; decide⟩, consumes_name h⟩
  | nameOf kind hword hopening target hclosing =>
      exact ⟨⟨_, _, rfl, by rw [kind]; decide⟩, consumes_nameOf kind hword hopening target hclosing⟩
  | paren hopening _ hclosing ih =>
      exact ⟨⟨_, _, rfl, by rw [hopening]; decide⟩, consumes_paren hopening ih hclosing⟩

/-- The phrase of a constant expression is read as a whole. -/
theorem consumes_additive {u : List Token} (h : ConstantPhrase .sum u) :
    Consumes constantGoesOn (fun _ => True) additive u := isRead h

/-! ### What is read is supported -/

/-- Values of these parsers are expressions that may be constant. -/
abbrev Supports (p : Parser Expr) : Prop := Yields (fun _ => True) (·.isSupported = true) p

theorem keeps_true (p : Parser α) : Keeps (fun _ => True) p := fun _ _ =>
  .intro (fun _ _ _ => ⟨trivial, trivial⟩) fun _ _ _ => trivial

theorem supports_literal : Supports literal := by
  refine .bind (keeps_true _) fun token _ => ?_
  split
  · exact .bind (keeps_true _) fun _ _ => .throw
  · exact .failExpecting _
  · exact .bind (keeps_true _) fun _ _ => .pure rfl

theorem supports_primary (inner : Parser Expr) : Supports (primary inner) := by
  refine .bind (keeps_true _) fun token _ => .ite (fun _ => ?_) fun _ => .bind (keeps_true _) fun _ _ =>
    .ite (fun _ => ?_) fun _ => .ite (fun _ => .map (keeps_true _) fun _ _ => rfl) fun _ => supports_literal
  · exact .bind (keeps_true _) fun _ _ => .bind (keeps_true _) fun _ _ => .bind (keeps_true _) fun _ _ =>
      .bind (keeps_true _) fun _ _ => .pure rfl
  · exact .bind (keeps_true _) fun _ _ => .bind (keeps_true _) fun _ _ => .bind (keeps_true _) fun _ _ =>
      .bind (keeps_true _) fun _ _ => .bind (keeps_true _) fun _ _ => .pure rfl

theorem supports_unary (inner : Parser Expr) : Supports (unary inner) := by
  refine .bind (keeps_true _) fun signs _ => .bind (supports_primary inner) fun operand hoperand => .pure ?_
  cases signs with
  | nil => exact hoperand
  | cons sign signs => rfl

/-- A constant expression is not one of those of which just the place is known. -/
theorem supports_additive : Supports additive := by
  rw [show additive = additiveOf additive from additive_recurs.eq ()]
  refine .bind (supports_unary additive) fun first hfirst => .bind (keeps_true _) fun more _ => .pure ?_
  induction more generalizing first with
  | nil => exact hfirst
  | cons operand more ih => exact ih _ rfl

end Parser

/-! ### Extent -/

namespace Skip

/-- A search for the terminators passes the tokens, whatever comes behind them. -/
def Hidden (terminators : List TokenKind) (u : List Token) : Prop :=
  ∀ v, untilLength terminators 0 (u ++ v) = .after u.length (untilLength terminators 0 v)

variable {terminators : List TokenKind} {u w : List Token}

theorem Hidden.nil : Hidden terminators [] := fun _ => by simp [Distance.after]

theorem Hidden.append (hu : Hidden terminators u) (hw : Hidden terminators w) :
    Hidden terminators (u ++ w) :=
  fun v => by rw [List.append_assoc, hu, hw, after_after, List.length_append]

theorem Hidden.group {opening closing : Token} (closes : opening.kind.closer? = some closing.kind)
    (inside : Nested u) (hend : opening.kind ∉ terminators) :
    Hidden terminators (opening :: (u ++ [closing])) := by
  intro v
  rw [List.cons_append, List.append_assoc, List.singleton_append, untilLength_group closes inside hend]
  simp

end Skip

namespace ConstantPhrase

open Skip (Hidden)

variable {part : ConstantPart} {u : List Token} {terminators : List TokenKind}

/-- The brackets of a phrase are properly nested. -/
theorem nested (h : ConstantPhrase part u) : Nested u := by
  have hparens : ∀ {a b : Token}, a.kind = .leftParen → b.kind = .rightParen →
      a.kind.closer? = some b.kind := by
    intro a b ha hb
    rw [ha, hb]
    rfl
  induction h with
  | sum _ _ ih ih' => exact ih.append ih'
  | done => exact .nil
  | plus hsign _ _ ih ih' => exact .plain (by rw [hsign]; rfl) (by rw [hsign]; rfl) (ih.append ih')
  | minus hsign _ ih => exact .plain (by rw [hsign]; rfl) (by rw [hsign]; rfl) ih
  | atom _ ih => exact ih
  | @literal a _ hvalue =>
      have hkind := Parser.hasValue_of_literalValue? hvalue
      refine .plain ?_ ?_ .nil <;> cases h : a.kind <;> rw [h] at hkind <;> first | rfl | cases hkind
  | name h => exact h.ofType.nested
  | nameOf kind _ hopening target hclosing =>
      exact .plain (by rw [kind]; rfl) (by rw [kind]; rfl)
        (.group (hparens hopening hclosing) target.ofType.nested .nil)
  | paren hopening _ hclosing ih => exact .group (hparens hopening hclosing) ih .nil

/-- A search for a comma, a semicolon or a closing parenthesis does not end in a phrase. -/
theorem hidden (h : ConstantPhrase part u) (hterm : terminators ⊆ [.comma, .semicolon, .rightParen]) :
    Hidden terminators u := by
  have hplain : ∀ {a : Token}, a.kind ∉ [TokenKind.comma, .semicolon, .rightParen] ∧
      a.kind.isOpener = false ∧
      a.kind.isCloser = false → Hidden terminators [a] := fun ⟨hend, hopen, hclose⟩ =>
    Skip.untilLength_plain (List.forall_mem_singleton.2 ⟨fun hmem => hend (hterm hmem), hopen, hclose⟩)
  have hopening : ∀ {a : Token}, a.kind = .leftParen → a.kind ∉ terminators := fun ha hmem => by
    rw [ha] at hmem
    exact absurd (hterm hmem) (by decide)
  induction h with
  | sum _ _ ih ih' => exact ih.append ih'
  | done => exact .nil
  | plus hsign _ _ ih ih' => exact .append (hplain (by rw [hsign]; decide)) (ih.append ih')
  | minus hsign _ ih => exact .append (hplain (by rw [hsign]; decide)) ih
  | atom _ ih => exact ih
  | @literal a _ hvalue =>
      have hkind := Parser.hasValue_of_literalValue? hvalue
      refine hplain ?_
      cases h : a.kind <;> rw [h] at hkind <;> first | decide | cases hkind
  | name h =>
      refine Skip.untilLength_plain fun a ha => ?_
      have hkind := h.kinds_plainName a ha
      simp only [List.mem_cons, List.not_mem_nil, or_false] at hkind
      rcases hkind with hkind | hkind | hkind <;>
      · rw [hkind]
        exact ⟨fun hmem => absurd (hterm hmem) (by decide), rfl, rfl⟩
  | nameOf kind _ hparen target hclosing =>
      refine .append (hplain (by rw [kind]; decide))
        (.group (by rw [hparen, hclosing]; rfl) target.ofType.nested ?_)
      exact hopening hparen
  | paren hparen inside hclosing _ =>
      exact .group (by rw [hparen, hclosing]; rfl) inside.nested (hopening hparen)

end ConstantPhrase

namespace Parser

variable {s t : ParserState} {terminators : List TokenKind} {u v : List Token}

theorem kind_current_congr (h : s.unread = t.unread) : s.current.kind = t.current.kind := by
  unfold ParserState.current ParserState.ahead
  rw [h]
  cases t.unread <;> rfl

/-- A phrase before a terminator is read as an expression, and a search ends behind it. -/
theorem expr_of_phrase (hterm : terminators ⊆ [.comma, .semicolon, .rightParen])
    (hunread : s.unread = u ++ v) (phrase : ConstantPhrase .sum u)
    (hend : (s.pass u.length).current.kind ∈ terminators) :
    ∃ e, expr terminators s = .ok e (s.pass u.length) ∧ e.isSupported = true ∧
      s.skipUntil terminators = s.pass u.length := by
  have hnext : (s.pass u.length).current.kind ∉ constantGoesOn := fun hmem => by
    have hboth := hterm hend
    generalize (s.pass u.length).current.kind = kind at hmem hboth
    simp only [List.mem_cons, List.not_mem_nil, or_false] at hboth
    rcases hboth with rfl | rfl | rfl <;> exact absurd hmem (by decide)
  obtain ⟨e, he, -⟩ := consumes_additive phrase s v hunread hnext
  refine ⟨e, expr_eq he hend, ((supports_additive s trivial).of_ok he).2, ?_⟩
  -- the search stops at the terminator at once
  have hstop : (s.pass u.length).skipUntil terminators = s.pass u.length := by
    rw [ParserState.skipUntil_eq, if_pos (c := _ ∨ _) (.inl hend), ite_self]
  rw [ParserState.skipUntil, hunread, phrase.hidden hterm v, ParserState.passDistance_after]
  rw [ParserState.skipUntil, unread_pass hunread] at hstop
  exact hstop

/-- A search passes the same tokens from a state that is gone back to. -/
theorem skipUntil_rewind (t s : ParserState) :
    ((t.rewind s).skipUntil terminators).unread = (s.skipUntil terminators).unread ∧
      ((t.rewind s).skipUntil terminators).last? = (s.skipUntil terminators).last? := by
  have hlast : ∀ (u : ParserState) (d : Skip.Distance), (u.passDistance d).last? = (u.pass d.count).last? :=
    fun u d => by
    unfold ParserState.passDistance ParserState.record
    dsimp only
    split <;> try split
    all_goals rfl
  unfold ParserState.skipUntil
  rw [ParserState.unread_passDistance, ParserState.unread_passDistance, hlast, hlast]
  exact ⟨rfl, rfl⟩

/-- Where no phrase ends before a terminator just the place of an expression is known,
which is found by a search. -/
theorem expr_of_no_phrase (h : ∀ u v, s.unread = u ++ v → ConstantPhrase .sum u →
      (s.pass u.length).current.kind ∉ terminators) :
    ∃ e t, expr terminators s = .ok e t ∧ e.isSupported = false ∧
      t.unread = (s.skipUntil terminators).unread ∧ t.last? = (s.skipUntil terminators).last? := by
  have hattempt : Outcome (fun constant? t => ∀ e, constant? = some e → t.current.kind ∉ terminators)
      (fun _ => False) (attempt additive) s := by
    refine .tryCatch (.map (takes_additive s) fun e t ⟨u, hunread, phrase⟩ _ _ hend => ?_) fun _ _ _ _ =>
      .pure nofun
    refine h u _ hunread phrase ?_
    rwa [kind_current_congr (unread_pass hunread)]
  refine Outcome.exists_ok <| .get <| .bind hattempt fun constant? t _ hend => ?_
  extract_lets rest
  have hrest : Outcome (fun e u => e.isSupported = false ∧ u.unread = (s.skipUntil terminators).unread ∧
      u.last? = (s.skipUntil terminators).last?) (fun _ => False) (rest ()) t :=
    .modify <| .modify <| .get <| .ite (fun _ => .modify <| .pure ⟨rfl, skipUntil_rewind t s⟩) fun _ =>
      .pure ⟨rfl, skipUntil_rewind t s⟩
  cases constant? with
  | none => exact hrest
  | some e => exact .peek <| .ite (fun hmem => absurd hmem (hend e rfl)) fun _ => hrest

/-- The tokens of an expression end where a search for its terminators does, whether it may be constant or
not.  It may be iff they are a phrase and a terminator comes behind them. -/
theorem expr_extent (hterm : terminators ⊆ [.comma, .semicolon, .rightParen]) (s : ParserState) :
    ∃ e t, expr terminators s = .ok e t ∧ t.unread = (s.skipUntil terminators).unread ∧
      t.last? = (s.skipUntil terminators).last? ∧
      (e.isSupported = true ↔
        ∃ u, s.unread = u ++ t.unread ∧ ConstantPhrase .sum u ∧ t.current.kind ∈ terminators) := by
  by_cases h : ∃ u v, s.unread = u ++ v ∧ ConstantPhrase .sum u ∧
    (s.pass u.length).current.kind ∈ terminators
  · obtain ⟨u, v, hunread, phrase, hend⟩ := h
    obtain ⟨e, he, hsupported, hskip⟩ := expr_of_phrase hterm hunread phrase hend
    refine ⟨e, _, he, by rw [hskip], by rw [hskip], fun _ => ⟨u, ?_, phrase, hend⟩, fun _ => hsupported⟩
    rw [unread_pass hunread, hunread]
  · have hnone : ∀ u v, s.unread = u ++ v → ConstantPhrase .sum u →
        (s.pass u.length).current.kind ∉ terminators :=
      fun u v hunread phrase hend => h ⟨u, v, hunread, phrase, hend⟩
    obtain ⟨e, t, he, hsupported, hunread, hlast⟩ := expr_of_no_phrase hnone
    refine ⟨e, t, he, hunread, hlast, fun hyes => ?_, fun ⟨u, hu, phrase, hend⟩ => ?_⟩
    · rw [hsupported] at hyes
      cases hyes
    · refine absurd ?_ (hnone u _ hu phrase)
      rwa [kind_current_congr (unread_pass hu)]

/-- The tokens of `nameof(A<B, C>), D`. -/
def nameOfTokens : List Token :=
  [⟨.identifier, "nameof", ⟨0, 1, 1, 6⟩⟩, ⟨.leftParen, "(", ⟨6, 1, 7, 1⟩⟩, ⟨.identifier, "A", ⟨7, 1, 8, 1⟩⟩,
    ⟨.less, "<", ⟨8, 1, 9, 1⟩⟩, ⟨.identifier, "B", ⟨9, 1, 10, 1⟩⟩, ⟨.comma, ",", ⟨10, 1, 11, 1⟩⟩,
    ⟨.identifier, "C", ⟨12, 1, 13, 1⟩⟩, ⟨.greater, ">", ⟨13, 1, 14, 1⟩⟩, ⟨.rightParen, ")", ⟨14, 1, 15, 1⟩⟩,
    ⟨.comma, ",", ⟨15, 1, 16, 1⟩⟩, ⟨.identifier, "D", ⟨17, 1, 18, 1⟩⟩]

/-- The comma between the type arguments does not end the expression, and the one behind it does. -/
theorem expr_extent_nameOf :
    ∃ e t, expr [.comma, .semicolon] ⟨⟨0⟩, nameOfTokens, ⟨18, 1, 19⟩, none, [], false, 0⟩ =
    .ok e t ∧ t.unread = nameOfTokens.drop 9 ∧ e.isSupported = true := by
  obtain ⟨e, t, he, hunread, -, hiff⟩ := expr_extent
    (show [TokenKind.comma, .semicolon] ⊆ [.comma, .semicolon, .rightParen] by simp)
    ⟨⟨0⟩, nameOfTokens, ⟨18, 1, 19⟩, none, [], false, 0⟩
  have hbehind : t.unread = nameOfTokens.drop 9 := hunread.trans rfl
  refine ⟨e, t, he, hbehind, hiff.2 ⟨nameOfTokens.take 9, by rw [hbehind]; rfl, ?_, ?_⟩⟩
  · have hname : ∀ {a : Token}, a.kind = .identifier → TypePhrase .type [a] := fun kind =>
      .type (.named (.unqualified (.simple kind) .done)) .bare
    have hargs : TypePhrase .types ((nameOfTokens.drop 4).take 3) :=
      .types (hname rfl) rfl (.lastType (hname rfl))
    have htarget : TypePhrase (.name true) ((nameOfTokens.drop 2).take 6) :=
      .unqualified (.generic rfl (.args rfl hargs rfl)) .done
    exact .sum (.atom (.nameOf rfl rfl rfl htarget rfl)) .done
  · rw [current_of_unread hbehind]
    decide

end Parser

end Graft
