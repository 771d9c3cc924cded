/-
Module: Graft.Proofs.Parser.IntegerLiterals
Purpose: What integer literals come to in expressions, with a minus sign in front of them or without one.
Main exports: Token.integer_cases, Parser.Evaluates, Parser.OutOfRange, IntegerLiteral.evaluation_exact

A literal is read into 64 bits before the sign in front of it is looked at.  So the least number of 64 bits
has no decimal form, and a literal that is not decimal may stand for a negative number.
-/
import Graft.Constant.Evaluation
import Graft.Proofs.Literal.Integers
import Graft.Proofs.Parser.Skipping
import Graft.Proofs.Parser.StringLiterals
import Graft.Proofs.Token.Literals
import Graft.Proofs.Token.Spells

namespace Graft

open Number

/-! ### Tokens -/

theorem Parser.literalValue?_integer {t : Token} (kind : t.kind = .intLiteral) : literalValue? t =
    match integer? t.lexeme.toList with
    | some value => .ok (some (.int value))
    | none => .error ⟨.outOfRange t.lexeme, t.span⟩ := by
  obtain ⟨other, _, _⟩ := t
  obtain rfl : other = .intLiteral := kind
  rfl

/-- An integer in a source is an integer literal, or it has no value. -/
theorem Token.integer_cases {source : String} {t : Token} (mem : t ∈ (TokenStream.ofText source).tokens)
    (kind : t.kind = .intLiteral) :
    (∃ l : IntegerLiteral, t.lexeme = .ofList l.text) ∨
      Parser.literalValue? t = .error ⟨.outOfRange t.lexeme, t.span⟩ := by
  have hcases : (∃ l : IntegerLiteral, t.lexeme.toList = l.text) ∨ integer? t.lexeme.toList = none := by
    refine TokenStream.forall_tokens (P := fun t => t.kind = .intLiteral →
      (∃ l : IntegerLiteral, t.lexeme.toList = l.text) ∨ integer? t.lexeme.toList = none)
      (fun c first rest kind hrest hpiece hkind => ?_) _ t mem kind
    obtain rfl : kind = .intLiteral := hkind
    have hliteral := Piece.isLiteral_of_kind? hpiece rfl
    generalize Piece.ofText c.lineIsBlank first rest = piece at hpiece hliteral
    rw [TokenStream.tokenAt, hrest]
    dsimp only
    rw [String.toList_ofList]
    cases hliteral with
    | string _ _ => cases Piece.isString_of_kind?_string hpiece
    | char _ => cases Piece.kind_of_kind?_char hpiece
    | number start =>
        refine Number.integer_cases start ?_
        cases hreal : (extent (first :: rest)).isReal with
        | true =>
            rw [hreal] at hpiece
            cases hpiece
        | false => rw [← hreal]; rfl
  rcases hcases with ⟨l, hl⟩ | hnone
  · exact .inl ⟨l, by rw [← hl, String.ofList_toList]⟩
  · exact .inr (by rw [Parser.literalValue?_integer kind, hnone])

namespace TokenStream

variable {W v : List Char}

/-- An integer literal is one token. -/
theorem spells_integer (l : IntegerLiteral) (stop : Text.Stops v) :
    Spells W l.text v (Marked [(.intLiteral, .ofList l.text)]) := by
  have hextent : extent (l.text ++ v) = ⟨l.text.length, false⟩ := by
    have hfit : (extent (l.text ++ [])).count ≤ l.text.length := by
      rw [List.append_nil, l.extent_text]
    rw [extent_append l.text_ne_nil hfit stop, List.append_nil, l.extent_text]
  obtain ⟨first, rest, htext, hdigit⟩ := l.exists_digit
  rw [htext] at hextent ⊢
  have hne : ∀ c, c.isDigit = false → first ≠ c := by
    rintro c hc rfl
    rw [hc] at hdigit
    cases hdigit
  have hplain : isLead first = false := by
    rw [isLead, Text.isBlank_of_isDigit hdigit, Bool.false_or, decide_eq_false_iff_not]
    exact hne '\ufeff' (by decide)
  refine spells_piece first rest (some .intLiteral) hplain fun b => ?_
  have hstart : starts (first :: (rest ++ v)) = true := by simp [starts, hdigit]
  rw [List.cons_append] at hextent
  unfold Piece.ofText Piece.scan
  simp [List.isPrefixOf, hne '#' (by decide), hne '"' (by decide), hne '\'' (by decide), hne '@' (by decide),
    hne '$' (by decide), (hne '/' (by decide)).symm, hstart, hextent, Piece.token]

/-- A minus sign is one token before a number. -/
theorem spells_minus (number : v.head?.any Char.isDigit = true) :
    Spells W ['-'] v (Marked [(.minus, "-")]) := by
  cases v with
  | nil => cases number
  | cons c rest =>
      have hc : '-' ≠ c ∧ '=' ≠ c ∧ '>' ≠ c := by
        refine ⟨?_, ?_, ?_⟩ <;>
        · rintro rfl
          cases number
      have hmatch : Operator.match? ('-' :: c :: rest) = some (['-'], .minus) := by
        simp [Operator.match?, Operator.table, Operator.triples, Operator.pairs, Operator.singles,
          List.isPrefixOf, hc]
      have hstart : Text.isIdentStart '-' = false := by decide
      refine spells_piece '-' [] (some .minus) (by decide) fun b => ?_
      rw [List.nil_append]
      unfold Piece.ofText Piece.scan
      simp [List.isPrefixOf, starts, hmatch, hstart, Piece.token]

end TokenStream

namespace Parser

variable {s t : ParserState} {terminators : List TokenKind} {α β : Type}

/-! ### Signs and literals -/

theorem bind_eq_error {p : Parser α} {e : ParseError} (h : p s = .error e t) (f : α → Parser β) :
    (p >>= f) s = .error e t := by
  change EStateM.bind p f s = _
  unfold EStateM.bind
  rw [h]

/-- An expression with minus signs in front of it. -/
def negated (signs : List Token) (operand : Expr) : Expr :=
  signs.foldr (fun sign inner => .negate inner (sign.span.merge inner.span)) operand

/-- What is neither in parentheses nor a name is read as a literal. -/
theorem primary_literal (inner : Parser Expr) (hparen : s.current.kind ≠ .leftParen)
    (hname : s.current.kind ≠ .identifier) : primary inner s = literal s := by
  have hnameOf : isNameOf s = false := by simp [isNameOf, ParserState.checkWord, hname]
  refine (bind_eq (p := peek) rfl _).trans ?_
  rw [if_neg hparen]
  refine (bind_eq (p := get) rfl _).trans ?_
  rw [if_neg (by simp [hnameOf]), if_neg hname]

/-- A number stands for itself. -/
theorem primary_integer (inner : Parser Expr) (hkind : s.current.kind = .intLiteral) :
    primary inner s = literal s :=
  primary_literal inner (by rw [hkind]; decide) (by rw [hkind]; decide)

theorem literal_eq {value : LiteralValue} (h : literalValue? s.current = .ok (some value)) :
    literal s = .ok (.literal value s.current.span) (s.pass 1) := by
  refine (bind_eq (p := peek) rfl _).trans ?_
  rw [h]
  rfl

/-- A literal without a value is reported and passed. -/
theorem literal_eq_error {e : ParseError} (h : literalValue? s.current = .error e) :
    literal s = .error e ((s.report e).pass 1) := by
  refine (bind_eq (p := peek) rfl _).trans ?_
  rw [h]
  rfl

section

variable {signs rest : List Token} {token : Token} (hunread : s.unread = signs ++ token :: rest)
  (hsigns : ∀ t ∈ signs, t.kind = .minus) (htoken : token.kind = .intLiteral)

include hunread in
theorem current_behind_signs : (s.pass signs.length).current = token := by
  have hlater : (s.pass signs.length).unread = token :: rest := by
    rw [ParserState.unread_pass, hunread, List.drop_left]
  exact current_of_unread hlater

include hunread hsigns htoken

/-- The minus signs before a literal are read one by one. -/
theorem items_minus : Items (eat? .minus) s signs (s.pass signs.length) := by
  induction signs generalizing s with
  | nil =>
      have hcheck : s.check .minus = false := by
        rw [ParserState.check, current_of_unread hunread, htoken]
        rfl
      rw [List.length_nil, ParserState.pass_zero]
      exact .done (eat?_eq_none hcheck)
  | cons sign signs ih =>
      have hcurrent : s.current = sign := current_of_unread hunread
      have hcheck : s.check .minus = true := by
        rw [ParserState.check, hcurrent, hsigns sign List.mem_cons_self]
        rfl
      have hlater := ih (unread_pass_one hunread) fun t ht => hsigns t (List.mem_cons_of_mem _ ht)
      rw [ParserState.pass_pass, Nat.add_comm] at hlater
      have hfirst := eat?_eq_some hcheck
      rw [hcurrent] at hfirst
      exact .more hfirst (ParserState.pass_lt_of_check (show TokenKind.minus ≠ .endOfFile by decide) hcheck)
        hlater

/-- A literal with a value is read with the signs before it. -/
theorem additive_literal {value : LiteralValue} (hvalue : literalValue? token = .ok (some value))
    (hplus : (s.pass (signs.length + 1)).current.kind ≠ .plus) :
    additive s = .ok (negated signs (.literal value token.span)) (s.pass (signs.length + 1)) := by
  have hcurrent := current_behind_signs hunread
  have hliteral : literal (s.pass signs.length) =
      .ok (.literal value token.span) (s.pass (signs.length + 1)) := by
    have hliteral := literal_eq (hcurrent.symm ▸ hvalue)
    rwa [hcurrent, ParserState.pass_pass] at hliteral
  have hunary : ∀ inner, unary inner s =
      .ok (negated signs (.literal value token.span)) (s.pass (signs.length + 1)) := fun inner =>
    (bind_eq (items_minus hunread hsigns htoken).many_eq _).trans <|
      bind_eq ((primary_integer inner (by rw [hcurrent, htoken])).trans hliteral) _
  exact (bind_eq (hunary _) _).trans <|
    bind_eq (many_eq_nil (whenever_eat_eq_none (decide_eq_false hplus))) _

/-- A literal without a value leaves nothing to read behind the signs. -/
theorem additive_eq_error {e : ParseError} (hvalue : literalValue? token = .error e) :
    additive s = .error e (((s.pass signs.length).report e).pass 1) := by
  have hcurrent := current_behind_signs hunread
  have hunary : ∀ inner, unary inner s = .error e (((s.pass signs.length).report e).pass 1) := fun inner =>
    (bind_eq (items_minus hunread hsigns htoken).many_eq _).trans <|
      bind_eq_error ((primary_integer inner (by rw [hcurrent, htoken])).trans
        (literal_eq_error (hcurrent.symm ▸ hvalue))) _
  exact bind_eq_error (hunary _) _

end

/-! ### Expressions -/

theorem attempt_eq {p : Parser α} {a : α} (h : p s = .ok a t) : attempt p s = .ok (some a) t := by
  change EStateM.tryCatch (some <$> p) _ s = _
  unfold EStateM.tryCatch
  rw [map_eq h]

theorem attempt_eq_none {p : Parser α} {e : ParseError} (h : p s = .error e t) :
    attempt p s = .ok none t := by
  change EStateM.tryCatch (EStateM.map some p) _ s = _
  unfold EStateM.tryCatch EStateM.map
  rw [h]
  rfl

/-- What is read without an error is the expression, if it ends where it may. -/
theorem expr_eq {e : Expr} (h : additive s = .ok e t) (hend : t.current.kind ∈ terminators) :
    expr terminators s = .ok e t := by
  refine (bind_eq (p := get) rfl _).trans <| (bind_eq (attempt_eq h) _).trans <|
    (bind_eq (p := peek) rfl _).trans ?_
  rw [if_pos hend]
  rfl

/-- What cannot be read is passed up to its end. -/
theorem expr_eq_unsupported {e : ParseError} {u : ParserState} (h : additive s = .error e t)
    (hskip : (t.rewind s).skipUntil terminators = u) (hmoved : u.unread.length ≠ s.unread.length) :
    expr terminators s = .ok (.unsupported (u.spanFrom s.current.span)) u := by
  refine (bind_eq (p := get) rfl _).trans <| (bind_eq (attempt_eq_none h) _).trans ?_
  have hskipped : skipUntil terminators (t.rewind s) = .ok ⟨⟩ u := by
    rw [← hskip]
    rfl
  refine (bind_eq (p := modify _) rfl _).trans <| (bind_eq hskipped _).trans <|
    (bind_eq (p := get) rfl _).trans ?_
  rw [if_neg hmoved]
  rfl

/-- Tokens that are neither brackets nor terminators are passed up to a terminator. -/
theorem skipUntil_plain {front rest : List Token} (hunread : s.unread = front ++ rest)
    (hplain : ∀ t ∈ front, t.kind ∉ terminators ∧ t.kind.isCloser = false ∧ t.kind.isOpener = false)
    (hend : (s.pass front.length).current.kind ∈ terminators) :
    s.skipUntil terminators = s.pass front.length := by
  induction front generalizing s with
  | nil =>
      rw [List.length_nil, ParserState.pass_zero] at hend ⊢
      rw [ParserState.skipUntil_eq, if_pos (c := _ ∨ _) (.inl hend), ite_self]
  | cons t front ih =>
      have hcurrent : s.current = t := current_of_unread hunread
      obtain ⟨hterminator, hcloser, hopener⟩ := hplain t List.mem_cons_self
      have hopen : s.atEnd = false := by
        rw [ParserState.atEnd, hunread]
        rfl
      have hlater := ih (unread_pass_one hunread) (fun t ht => hplain t (List.mem_cons_of_mem _ ht)) (by
        rw [ParserState.pass_pass, Nat.add_comm]
        exact hend)
      rw [ParserState.skipUntil_eq, hopen, hcurrent, hcloser, hopener, hlater, ParserState.pass_pass,
        Nat.add_comm]
      simp [hterminator]

/-- The next `count` tokens are an expression.  In every program and every scope, and whatever values are
known, this is its value. -/
def Evaluates (terminators : List TokenKind) (s : ParserState) (count : Nat)
    (result : Except ConstantError Constant) : Prop :=
  ∃ e, expr terminators s = .ok e (s.pass count) ∧ ∀ (p : ConstantFields) (scope : Scope) (source : String)
    (values : FieldValues), p.evaluate scope source e values = (result, values)

/-- The next `count` tokens are passed, and it is reported that a literal among them is out of range. -/
def OutOfRange (terminators : List TokenKind) (s : ParserState) (count : Nat) (literal : Token) : Prop :=
  expr terminators s = .ok (.unsupported ((s.pass count).spanFrom s.current.span))
    ((s.pass count).report ⟨.outOfRange literal.lexeme, literal.span⟩)

end Parser

/-! ### Values -/

namespace Constant

/-- An integer of 64 bits behind some minus signs.  The least one has no negative. -/
def signed (signs : Nat) (value : Int) : Except ConstantError Constant :=
  if signs ≠ 0 ∧ value = -2 ^ 63 then .error (.invalidOperands "-" "integer" "integer")
  else .ok (.int ((-1) ^ signs * value))

theorem negate_int {i : Int} (h : -2 ^ 63 ≤ i ∧ i < 2 ^ 63) : (Constant.int i).negate =
    if i = -2 ^ 63 then .error (.invalidOperands "-" "integer" "integer") else .ok (.int (-i)) := by
  have hnegative : (Constant.int i).negative? = if i = -2 ^ 63 then none else some (.int (-i)) := by
    change (if fits (-i) = true then some (Constant.int (-i)) else none) = _
    simp only [fits, Bool.and_eq_true, decide_eq_true_eq]
    split <;> split <;> first | rfl | omega
  unfold negate
  rw [hnegative]
  by_cases hleast : i = -2 ^ 63
  · rw [if_pos hleast, if_pos hleast]
    rfl
  · rw [if_neg hleast, if_neg hleast]

/-- One more sign is one more negation. -/
theorem signed_succ {value : Int} (h : -2 ^ 63 ≤ value ∧ value < 2 ^ 63) (signs : Nat) :
    signed (signs + 1) value = (signed signs value).bind negate := by
  unfold signed
  by_cases hleast : value = -2 ^ 63
  · rw [if_pos ⟨Nat.succ_ne_zero signs, hleast⟩]
    cases signs with
    | zero =>
        rw [if_neg (by simp), pow_zero, one_mul]
        exact ((negate_int h).trans (if_pos hleast)).symm
    | succ signs =>
        rw [if_pos ⟨Nat.succ_ne_zero signs, hleast⟩]
        rfl
  · have hrange : -2 ^ 63 ≤ (-1) ^ signs * value ∧ (-1) ^ signs * value < 2 ^ 63 ∧
        (-1) ^ signs * value ≠ -2 ^ 63 := by
      rcases neg_one_pow_eq_or Int signs with hsign | hsign <;>
      · rw [hsign]
        omega
    have hnegate := (negate_int ⟨hrange.1, hrange.2.1⟩).trans (if_neg hrange.2.2)
    rw [if_neg fun h => hleast h.2, if_neg fun h => hleast h.2, pow_succ, mul_neg_one, neg_mul]
    exact hnegate.symm

end Constant

namespace ConstantFields

variable {p : ConstantFields} {scope : Scope} {source : String} {values : FieldValues}

theorem evaluate_negate {operand : Expr} {span : Span} {result : Except ConstantError Constant}
    (h : p.evaluate scope source operand values = (result, values)) :
    p.evaluate scope source (.negate operand span) values = (result.bind Constant.negate, values) := by
  have hbind : p.evaluate scope source (.negate operand span) values =
      ExceptT.bindCont (fun value => (liftM value.negate : Evaluation Constant))
        (p.evaluate scope source operand values).1 (p.evaluate scope source operand values).2 := rfl
  rw [hbind, h]
  cases result <;> rfl

/-- The value of an integer behind minus signs. -/
theorem evaluate_negated {value : Int} (h : -2 ^ 63 ≤ value ∧ value < 2 ^ 63) (signs : List Token)
    (span : Span) :
    p.evaluate scope source (Parser.negated signs (.literal (.int value) span)) values =
      (Constant.signed signs.length value, values) := by
  induction signs with
  | nil =>
      have hsigned : Constant.signed 0 value = .ok (.int value) := by simp [Constant.signed]
      rw [List.length_nil, hsigned]
      rfl
  | cons sign signs ih =>
      rw [List.length_cons, Constant.signed_succ h]
      exact evaluate_negate ih

end ConstantFields

/-! ### Integers behind signs -/

open Graft.Parser

namespace IntegerLiteral

variable (l : IntegerLiteral)

/-- A literal is taken for a number of 64 bits. -/
theorem range_of_taken? {value : Int} (h : l.taken? = some value) : -2 ^ 63 ≤ value ∧ value < 2 ^ 63 := by
  unfold taken? at h
  split at h
  · obtain rfl := Option.some.inj h
    omega
  split at h
  · obtain rfl := Option.some.inj h
    omega
  · cases h

/-- What a literal behind minus signs comes to: a value, or an error. -/
def ComesTo (terminators : List TokenKind) (s : ParserState) (signs : Nat) (token : Token) :
    Option Int → Prop
  | some value => Evaluates terminators s (signs + 1) (Constant.signed signs value)
  | none => OutOfRange terminators s (signs + 1) token

/-- No expression ends before a sign or an integer. -/
def AreTerminators (terminators : List TokenKind) : Prop :=
  .plus ∉ terminators ∧ .minus ∉ terminators ∧ .intLiteral ∉ terminators

instance (terminators : List TokenKind) : Decidable (AreTerminators terminators) :=
  inferInstanceAs (Decidable (_ ∧ _ ∧ _))

/-- The tokens of a literal, perhaps behind a minus sign and before a semicolon. -/
theorem ofText_signed {signs behind : List Char} (hsigns : signs = [] ∨ signs = ['-'])
    (hbehind : behind = [] ∨ behind = [';']) : ∃ tokens stop,
      TokenStream.ofText (.ofList (signs ++ l.text ++ behind)) = ⟨tokens, [], stop⟩ ∧
        tokens.map Token.mark = signs.map (fun _ => (.minus, "-")) ++ [(.intLiteral, .ofList l.text)] ++
          behind.map fun _ => (.semicolon, ";") := by
  have hdigit : ∀ v : List Char, (l.text ++ v).head?.any Char.isDigit = true := by
    intro v
    obtain ⟨first, rest, htext, hdigit⟩ := l.exists_digit
    rw [htext]
    exact hdigit
  have hfirst : ∀ W v : List Char, Text.Stops v → TokenStream.Spells W (signs ++ l.text) v
      (TokenStream.Marked (signs.map (fun _ => (.minus, "-")) ++ [(.intLiteral, .ofList l.text)])) := by
    intro W v stop
    have hspells := TokenStream.spells_integer (W := W) l stop
    rcases hsigns with rfl | rfl
    · exact hspells
    · exact (TokenStream.spells_minus (hdigit v)).marked hspells
  refine TokenStream.ofText_of_spells ?_
  rw [String.toList_ofList]
  rcases hbehind with rfl | rfl
  · rw [List.append_nil, List.map_nil, List.append_nil]
    exact hfirst _ [] nofun
  · have hstops : Text.Stops ([';'] ++ []) := by
      intro c hc
      exact .inr (.inr (Option.some.inj hc).symm)
    exact (hfirst _ _ hstops).marked (TokenStream.spells_mark (by simp))

variable {l} {s : ParserState} {signs rest : List Token} {token : Token} {terminators : List TokenKind}

theorem comesTo_of_unread (hterm : AreTerminators terminators) (hunread : s.unread = signs ++ token :: rest)
    (hsigns : ∀ t ∈ signs, t.kind = .minus) (hmark : token.mark = (.intLiteral, .ofList l.text))
    (hend : (s.pass (signs.length + 1)).current.kind ∈ terminators) :
    ComesTo terminators s signs.length token l.taken? := by
  have hkind : token.kind = .intLiteral := congrArg Prod.fst hmark
  have hlexeme : token.lexeme.toList = l.text := by
    rw [show token.lexeme = .ofList l.text from congrArg Prod.snd hmark, String.toList_ofList]
  have hinteger : integer? token.lexeme.toList = l.taken? := by rw [hlexeme, l.integer?_text]
  cases htaken : l.taken? with
  | some value =>
      have hvalue : literalValue? token = .ok (some (.int value)) := by
        rw [literalValue?_integer hkind, hinteger, htaken]
      have hplus : (s.pass (signs.length + 1)).current.kind ≠ .plus := fun h => hterm.1 (h ▸ hend)
      exact ⟨_, expr_eq (additive_literal hunread hsigns hkind hvalue hplus) hend,
        fun p scope source values =>
        ConstantFields.evaluate_negated (l.range_of_taken? htaken) signs token.span⟩
  | none =>
      have hvalue : literalValue? token = .error ⟨.outOfRange token.lexeme, token.span⟩ := by
        rw [literalValue?_integer hkind, hinteger, htaken]
      have hplain : ∀ t ∈ signs ++ [token],
          t.kind ∉ terminators ∧ t.kind.isCloser = false ∧ t.kind.isOpener = false := by
        intro t ht
        rcases List.mem_append.1 ht with ht | ht
        · rw [hsigns t ht]
          exact ⟨hterm.2.1, rfl, rfl⟩
        · rw [List.mem_singleton.1 ht, hkind]
          exact ⟨hterm.2.2, rfl, rfl⟩
      have hall : (s.report ⟨.outOfRange token.lexeme, token.span⟩).unread = (signs ++ [token]) ++ rest := by
        rw [List.append_assoc]
        exact hunread
      have hlength : (signs ++ [token]).length = signs.length + 1 := List.length_append
      have hskip := skipUntil_plain hall hplain (by rw [hlength]; exact hend)
      rw [hlength] at hskip
      refine expr_eq_unsupported (u := (s.pass (signs.length + 1)).report ⟨.outOfRange token.lexeme,
        token.span⟩) (additive_eq_error hunread hsigns hkind hvalue) hskip ?_
      change (s.unread.drop (signs.length + 1)).length ≠ s.unread.length
      rw [hunread, List.length_drop, List.length_append, List.length_cons]
      omega

/-- What a literal before a semicolon comes to, perhaps behind a minus sign. -/
theorem comesTo_ofText (l : IntegerLiteral) (source : SourceId) {signs : List Char}
    (hsigns : signs = [] ∨ signs = ['-']) :
    ∃ token, ComesTo [.semicolon] (.ofText source (.ofList (signs ++ l.text ++ [';']))) signs.length token
      l.taken? := by
  obtain ⟨tokens, stop, htext, hmarks⟩ := l.ofText_signed hsigns (.inr rfl)
  obtain ⟨before, last, rfl, hbefore, hlast⟩ := List.map_eq_append_iff.1 hmarks
  obtain ⟨minus, integer, rfl, hminus, hinteger⟩ := List.map_eq_append_iff.1 hbefore
  obtain ⟨token, rfl, htoken⟩ := List.map_eq_singleton_iff.1 hinteger
  obtain ⟨semicolon, rfl, hsemicolon⟩ := List.map_eq_singleton_iff.1 hlast
  have hlength : minus.length = signs.length := by simpa using congrArg List.length hminus
  have hkind : ∀ t ∈ minus, t.kind = .minus := by
    intro t ht
    have hmem : t.mark ∈ signs.map fun _ => (TokenKind.minus, "-") := hminus ▸ List.mem_map_of_mem ht
    obtain ⟨_, -, heq⟩ := List.mem_map.1 hmem
    exact (congrArg Prod.fst heq).symm
  have hunread : (ParserState.ofText source (.ofList (signs ++ l.text ++ [';']))).unread =
      minus ++ token :: [semicolon] := by
    change (TokenStream.ofText (.ofList (signs ++ l.text ++ [';']))).tokens = _
    rw [htext]
    exact List.append_assoc _ _ _
  refine ⟨token, hlength ▸ comesTo_of_unread (by decide) hunread hkind htoken ?_⟩
  have hend : ((ParserState.ofText source (.ofList (signs ++ l.text ++ [';']))).pass
      (minus.length + 1)).current = semicolon := by
    refine current_of_unread (b := []) ?_
    rw [ParserState.unread_pass, hunread, ← List.drop_drop, List.drop_left]
    rfl
  rw [hend, show semicolon.kind = .semicolon from congrArg Prod.fst hsemicolon]
  exact List.mem_singleton_self _

/-- Integers are read exactly: every integer of a source is an integer literal or is out of range; a literal
is one token, also behind a minus sign; and behind any number of minus signs it comes to the
number that it is taken for. -/
theorem evaluation_exact (source : String) (l : IntegerLiteral) :
    (∀ t ∈ (TokenStream.ofText source).tokens, t.kind = .intLiteral →
      (∃ l : IntegerLiteral, t.lexeme = .ofList l.text) ∨
        literalValue? t = .error ⟨.outOfRange t.lexeme, t.span⟩) ∧
    (∀ signs ∈ [([] : List Char), ['-']], ∃ tokens stop,
      TokenStream.ofText (.ofList (signs ++ l.text)) = ⟨tokens, [], stop⟩ ∧
      tokens.map Token.mark = signs.map (fun _ => (.minus, "-")) ++ [(.intLiteral, .ofList l.text)]) ∧
    ∀ {terminators : List TokenKind} {s : ParserState} {signs rest : List Token} {token : Token},
      AreTerminators terminators → s.unread = signs ++ token :: rest → (∀ t ∈ signs, t.kind = .minus) →
      token.mark = (.intLiteral, .ofList l.text) → (s.pass (signs.length + 1)).current.kind ∈ terminators →
        ComesTo terminators s signs.length token l.taken? := by
  refine ⟨fun t mem kind => Token.integer_cases mem kind, fun signs hsigns => ?_, fun hterm hunread
    hsigns hmark hend => comesTo_of_unread hterm hunread hsigns hmark hend⟩
  have hnothing : ([] : List Char) = [] ∨ [] = [';'] := .inl rfl
  have htokens := l.ofText_signed (List.mem_pair.1 hsigns) hnothing
  rwa [List.append_nil, List.map_nil, List.append_nil] at htokens

/-- A literal of decimal digits without a suffix. -/
def ofDecimal (digits : List Char) (hdigits : ∀ c ∈ digits, c.isDigit = true) (hne : digits ≠ []) :
    IntegerLiteral where
  letter? := none
  digits := digits
  suffix := []
  isMark := nofun
  valid c hc := .inr (isDigitOf_ten.2 (hdigits c hc))
  someDigit := by
    obtain ⟨c, rest, rfl⟩ := List.exists_cons_of_ne_nil hne
    refine ⟨c, List.mem_cons_self, ?_⟩
    rintro rfl
    exact absurd (hdigits _ List.mem_cons_self) (by decide)
  start _ hhead := absurd (hdigits _ (List.mem_of_mem_head? hhead)) (by decide)
  isSuffix := nofun

/-- The literal `9`. -/
def nine : IntegerLiteral := ofDecimal ['9'] (List.forall_mem_singleton.2 rfl) (List.cons_ne_nil _ _)

/-- The tokens of a decimal number behind a minus sign and before a semicolon. -/
def negativeTokens (digits : String) : List Token :=
  [⟨.minus, "-", ⟨0, 1, 1, 1⟩⟩, ⟨.intLiteral, digits, ⟨1, 1, 2, digits.length⟩⟩,
    ⟨.semicolon, ";", ⟨digits.length + 1, 1, digits.length + 2, 1⟩⟩]

/-- A minus sign and the digit nine evaluate to what they denote. -/
theorem evaluation_exact_nine : Evaluates [.semicolon]
    ⟨⟨0⟩, negativeTokens "9", ⟨3, 1, 4⟩, none, [], false, 0⟩ 2 (.ok (.int (-9))) := by
  have hterm : AreTerminators [.semicolon] := by decide
  have hunread : (ParserState.mk ⟨0⟩ (negativeTokens "9") ⟨3, 1, 4⟩ none [] false 0).unread =
      [⟨.minus, "-", ⟨0, 1, 1, 1⟩⟩] ++ ⟨.intLiteral, "9", ⟨1, 1, 2, 1⟩⟩ ::
      [⟨.semicolon, ";", ⟨2, 1, 3, 1⟩⟩] := rfl
  have hcomes := (evaluation_exact "" nine).2.2 hterm hunread (by decide) rfl (by decide)
  have htaken : nine.taken? = some 9 := by decide
  rw [htaken] at hcomes
  exact hcomes

/-- The greatest number of 64 bits without a sign. -/
def allOnes : IntegerLiteral where
  letter? := some 'x'
  digits := List.replicate 16 'F'
  suffix := []
  isMark c hc := by
    rw [← Option.some.inj hc]
    rfl
  valid c hc := .inr ⟨15, by rw [List.eq_of_mem_replicate hc]; rfl, by decide⟩
  someDigit := ⟨'F', by decide, by decide⟩
  start := nofun
  isSuffix := nofun

/-- The least number of 64 bits without its sign. -/
def leastMagnitude : IntegerLiteral :=
  ofDecimal "9223372036854775808".toList (List.all_eq_true.1 (by decide)) (by decide)

/-- A literal that does not fit is taken for minus one, and the least number that fits cannot be written. -/
theorem evaluation_inexact :
    (String.ofList allOnes.text = "0xFFFFFFFFFFFFFFFF" ∧ allOnes.value = 2 ^ 64 - 1 ∧
      Evaluates [.semicolon] (.ofText ⟨0⟩ "0xFFFFFFFFFFFFFFFF;") 1 (.ok (.int (-1)))) ∧
    (String.ofList leastMagnitude.text = "9223372036854775808" ∧ leastMagnitude.value = 2 ^ 63 ∧
      ∃ token, OutOfRange [.semicolon] (.ofText ⟨0⟩ "-9223372036854775808;") 2 token) := by
  have hones : allOnes.value = 2 ^ 64 - 1 := by decide +kernel
  have hleast : leastMagnitude.value = 2 ^ 63 := by decide +kernel
  have htakenOnes : allOnes.taken? = some (-1) := by decide +kernel
  have htakenLeast : leastMagnitude.taken? = none := by decide +kernel
  obtain ⟨token, hcomes⟩ := comesTo_ofText allOnes ⟨0⟩ (.inl rfl)
  obtain ⟨token', hcomes'⟩ := comesTo_ofText leastMagnitude ⟨0⟩ (.inr rfl)
  rw [htakenOnes] at hcomes
  rw [htakenLeast] at hcomes'
  exact ⟨⟨rfl, hones, hcomes⟩, rfl, hleast, token', hcomes'⟩

end IntegerLiteral

end Graft
