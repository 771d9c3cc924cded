/-
Module: Graft.Proofs.Parser.ConstantErrors
Purpose: Which tokens make the attempt to read a constant expression report an error.
Main exports: SpoiledPhrase, Parser.spoils_additive, Parser.additive_errors, SpoiledPhrase.length_le_count

The attempt to read a constant leaves the errors of literals without a value behind, even where it fails
later and the expression is passed.  The tokens up to such a literal are a phrase of a grammar of its own:
constants, signs and opening parentheses, and the literal at the end.  A search for the end of the expression
passes all of them, so that they are tokens of the expression.
-/
import Graft.Proofs.Parser.ConstantPhrases

namespace Graft

open Graft.Parser (literalValue?)

/-- Tokens up to a literal without a value, which the attempt to read a part of a
constant expression comes to. -/
inductive SpoiledPhrase : ConstantPart → List Token → Prop where
  | literal {a : Token} {e : ParseError} (hvalue : literalValue? a = .error e) : SpoiledPhrase .atom [a]
  | paren {opening : Token} {u : List Token} (hopening : opening.kind = .leftParen)
      (inside : SpoiledPhrase .sum u) :
      SpoiledPhrase .atom (opening :: u)
  | atom {u : List Token} (h : SpoiledPhrase .atom u) : SpoiledPhrase .operand u
  | minus {sign : Token} {u : List Token} (hsign : sign.kind = .minus) (inner : SpoiledPhrase .operand u) :
      SpoiledPhrase .operand (sign :: u)
  | first {u : List Token} (h : SpoiledPhrase .operand u) : SpoiledPhrase .sum u
  | later {u w : List Token} (first : ConstantPhrase .operand u) (h : SpoiledPhrase .more w) :
      SpoiledPhrase .sum (u ++ w)
  | plus {sign : Token} {u : List Token} (hsign : sign.kind = .plus) (h : SpoiledPhrase .operand u) :
      SpoiledPhrase .more (sign :: u)
  | more {sign : Token} {u w : List Token} (hsign : sign.kind = .plus) (operand : ConstantPhrase .operand u)
      (h : SpoiledPhrase .more w) : SpoiledPhrase .more (sign :: (u ++ w))

/-- A token whose value is an error is a literal. -/
theorem Parser.hasValue_of_literalValue?_error {a : Token} {e : ParseError}
    (h : literalValue? a = .error e) :
    a.kind.hasValue = true := by
  unfold literalValue? at h
  cases hkind : a.kind <;> rw [hkind] at h <;> first | rfl | cases h

namespace Parser

variable {α β : Type} {s t : ParserState}

/-! ### What reports an error is a phrase -/

/-- The parser reports nothing, unless it comes to a literal without a value behind a
phrase of the part and fails. -/
def SpoiledBy (part : ConstantPart) (p : Parser α) : Prop :=
  ∀ s, Outcome (fun _ t => t.errors = s.errors ∧ ∃ u, s.unread = u ++ t.unread ∧ ConstantPhrase part u)
    (fun t => t.errors = s.errors ∨ ∃ u v, s.unread = u ++ v ∧ SpoiledPhrase part u) p s

/-- What is known of the errors of a parser and of what it passes is known together. -/
theorem outcome_takes {Q : List Token → Prop} {E : ParserState → Prop} {p : Parser α}
    (hp : Outcome (fun _ t => t.errors = s.errors) E p s) (takes : TakesFrom s Q p) :
    Outcome (fun _ t => t.errors = s.errors ∧ ∃ u, s.unread = u ++ t.unread ∧ Q u) E p s :=
  .intro (fun _ _ h => ⟨hp.of_ok h, takes.of_ok h⟩) fun _ _ h => hp.of_error h

/-- Passing a token reports nothing. -/
theorem passInvariant_errors (s : ParserState) :
    PassInvariant (fun t => t.errors = s.errors) fun _ => True :=
  ⟨fun h _ => h, fun _ _ => trivial⟩

theorem errors_namedType (withArgs : Bool) (s : ParserState) :
    Outcome (fun _ t => t.errors = s.errors) (fun t => t.errors = s.errors) (namedType withArgs) s :=
  ((passInvariant_errors s).namedType withArgs s rfl).mono (fun _ _ h => h.1) fun _ h => h

theorem spoiledBy_literal : SpoiledBy .atom literal := by
  refine fun s => outcome_takes (.peek ?_) (takes_literal s)
  split
  · rename_i e hvalue
    have hne : s.current.kind ≠ .endOfFile :=
      TokenKind.ne_of_hasValue (hasValue_of_literalValue?_error hvalue) rfl
    obtain ⟨a, rest, hunread, ha⟩ :=
      ParserState.exists_unread (ParserState.atEnd_of_check hne (decide_eq_true rfl))
    exact .modify <| .throw <| .inr ⟨[a], rest, hunread, .literal (ha ▸ hvalue)⟩
  · exact .get <| .throw <| .inl rfl
  · exact .bind (Q := fun _ t => t.errors = s.errors) (.peek <| .modify <| .pure rfl) fun _ _ _ h => .pure h

section

variable {inner : Parser Expr} (takes : Takes (ConstantPhrase .sum) inner) (hinner : SpoiledBy .sum inner)
include takes hinner

theorem spoiledBy_primary : SpoiledBy .atom (primary inner) := by
  refine fun s => outcome_takes (.peek <| .ite (fun hkind => ?_) fun _ => .get <| .ite (fun _ => ?_) fun _ =>
    .ite (fun _ => ?_) fun _ => ?_) (takes_primary takes s)
  · obtain ⟨opening, hunread, -, hopening⟩ := ParserState.exists_of_check (decide_eq_true hkind)
    refine .after (p := advance) rfl <| .bind ((hinner (s.pass 1)).mono (fun _ _ h => h) fun t ht => ?_)
      fun _ t _ ht => ?_
    · refine ht.imp_right fun ⟨u, v, hu, hphrase⟩ => ⟨opening :: u, v, ?_, .paren hopening hphrase⟩
      rw [hunread, hu, List.cons_append]
    · exact .bind (Q := fun _ u => u.errors = s.errors) (.expect (fun _ => ht.1) fun _ => .inl ht.1)
        fun _ _ _ h => .spanFrom <| .pure h
  · refine .after (p := advance) rfl <| .after (p := advance) rfl <|
      .bind ((errors_namedType true _).mono (fun _ _ h => h) fun _ h => .inl h) fun _ t _ ht => ?_
    exact .bind (Q := fun _ u => u.errors = s.errors) (.expect (fun _ => ht) fun _ => .inl ht) fun _ _ _ h =>
      .spanFrom <| .pure h
  · exact .map ((errors_namedType false s).mono (fun _ _ h => h) fun _ h => .inl h) fun _ _ h => h
  · exact (spoiledBy_literal s).mono (fun _ _ h => h.1) fun _ h => h

theorem spoiledBy_unary : SpoiledBy .operand (unary inner) := by
  refine fun s => outcome_takes ?_ (takes_unary takes s)
  have hsigns : Outcome (fun _ t => t.errors = s.errors ∧
      ∃ u, s.unread = u ++ t.unread ∧ ∀ sign ∈ u, sign.kind = .minus) (fun t => t.errors = s.errors)
      (many (eat? .minus)) s := by
    have hkept := Yields.keeps_many
      ((passInvariant_errors s).eat? (show TokenKind.minus.isBrace = false from rfl)) s rfl
    have htakes : TakesFrom s (fun u => ∀ sign ∈ u, sign.kind = .minus) (many (eat? .minus)) := by
      refine takes_many (P := OneOf .minus) (fun _ => .eat? (by decide)) nofun ?_ s
      rintro _ w ⟨sign, rfl, hsign⟩ hw
      exact List.forall_mem_cons.2 ⟨hsign, hw⟩
    exact outcome_takes (hkept.mono (fun _ _ h => h.1) fun _ h => h) htakes
  refine .bind (hsigns.mono (fun _ _ h => h) fun _ h => .inl h) fun _ t _ ⟨ht, signs, hunread, hkinds⟩ => ?_
  refine .bind ((spoiledBy_primary takes hinner t).mono (fun _ _ h => h.1) fun u hu => ?_) fun _ _ _ h =>
    .pure (h.trans ht)
  rw [ht] at hu
  refine hu.imp_right fun ⟨w, v, hw, hphrase⟩ => ⟨signs ++ w, v, by rw [hunread, hw, List.append_assoc], ?_⟩
  clear hunread
  induction signs with
  | nil => exact .atom hphrase
  | cons sign signs ih =>
      obtain ⟨hsign, hkinds⟩ := List.forall_mem_cons.1 hkinds
      exact .minus hsign (ih hkinds)

/-- Further summands. -/
theorem spoiledBy_summands : SpoiledBy .more (many (whenever (eat .plus) (unary inner))) := by
  refine fun s => .fix_of_step (L := fun (_ : Unit) t => ∃ u, s.unread = u ++ t.unread ∧
    t.errors = s.errors ∧ (∀ w, ConstantPhrase .more w → ConstantPhrase .more (u ++ w)) ∧
    ∀ w, SpoiledPhrase .more w → SpoiledPhrase .more (u ++ w))
    (Q := fun _ _ t => t.errors = s.errors ∧ ∃ u, s.unread = u ++ t.unread ∧ ConstantPhrase .more u)
    (fun _ t ⟨_, _, ht, _⟩ => .inl ht) (fun rest hrest _ t ⟨u, hunread, ht, hphrase, hspoiled⟩ => ?_)
    ⟨[], rfl, rfl, fun _ h => h, fun _ h => h⟩
  refine .bind (Q := fun e? v => match e? with
    | none => v = t
    | some _ => ∃ u, s.unread = u ++ v.unread ∧ v.errors = s.errors ∧
        (∀ w, ConstantPhrase .more w → ConstantPhrase .more (u ++ w)) ∧
        ∀ w, SpoiledPhrase .more w → SpoiledPhrase .more (u ++ w)) ?_ fun e? v _ hv => ?_
  · refine .eat (fun hcheck => .ite (fun _ => ?_) (absurd rfl)) fun _ =>
      .ite (fun h => absurd h Bool.false_ne_true) fun _ => .pure rfl
    obtain ⟨sign, hsign, -, hplus⟩ := ParserState.exists_of_check hcheck
    have hpassed : ∀ {w v}, (t.pass 1).unread = w ++ v → s.unread = (u ++ (sign :: w)) ++ v := fun hw => by
      rw [hunread, hsign, hw, List.append_assoc, List.cons_append]
    refine .map ((spoiledBy_unary takes hinner (t.pass 1)).mono (fun _ _ h => h) fun v hv => ?_)
      fun _ v ⟨hv, w, hw, hoperand⟩ => ?_
    · refine hv.imp (fun h => h.trans ht) fun ⟨w, x, hw, hoperand⟩ => ?_
      exact ⟨u ++ (sign :: w), x, hpassed hw, hspoiled _ (.plus hplus hoperand)⟩
    · refine ⟨u ++ (sign :: w), hpassed hw, hv.trans ht, fun x hx => ?_, fun x hx => ?_⟩
      · rw [List.append_assoc]
        exact hphrase _ (.plus hplus hoperand hx)
      · rw [List.append_assoc]
        exact hspoiled _ (.more hplus hoperand hx)
  · cases e? with
    | none =>
        obtain rfl : v = t := hv
        exact .pure ⟨ht, u, hunread, by simpa using hphrase [] .done⟩
    | some e => exact (hrest () v hv).bind fun _ _ _ h => .pure h

theorem spoiledBy_additiveOf : SpoiledBy .sum (additiveOf inner) := by
  refine fun s => outcome_takes
    (.bind ((spoiledBy_unary takes hinner s).mono (fun _ _ h => h) fun t ht => ?_)
    fun _ t _ ⟨ht, u, hunread, hoperand⟩ =>
      .bind ((spoiledBy_summands takes hinner t).mono (fun _ _ h => h.1)
      fun v hv => ?_) fun _ _ _ h => .pure (h.trans ht)) (takes_additiveOf takes s)
  · exact ht.imp_right fun ⟨u, v, hu, hphrase⟩ => ⟨u, v, hu, .first hphrase⟩
  · refine hv.imp (fun h => h.trans ht) fun ⟨w, x, hw, hphrase⟩ => ⟨u ++ w, x, ?_, .later hoperand hphrase⟩
    rw [hunread, hw, List.append_assoc]

end

/-- The attempt to read a constant reports an error only behind tokens that are spoiled. -/
theorem additive_errors : SpoiledBy .sum additive := by
  have hunfold : ∀ rounds,
      SpoiledBy .sum (unfold (fun inner (_ : Unit) => additiveOf (inner ())) rounds ()) ∧
      Takes (ConstantPhrase .sum) (unfold (fun inner (_ : Unit) => additiveOf (inner ())) rounds ()) := by
    intro rounds
    induction rounds with
    | zero => exact ⟨fun s => .peek <| .throw (.inl rfl), fun s => .peek .throw⟩
    | succ rounds ih => exact ⟨spoiledBy_additiveOf ih.2 ih.1, takes_additiveOf ih.2⟩
  exact fun s => .fix fun rounds => spoiledBy_additiveOf (hunfold rounds).2 (hunfold rounds).1 s

/-! ### Spoiled phrases report an error -/

/-- The parser fails and leaves an error behind. -/
def Spoils (p : Parser α) (s : ParserState) : Prop := ∃ e t, p s = .error e t ∧ t.errors ≠ []

theorem Spoils.bind {p : Parser α} {f : α → Parser β} (h : Spoils p s) : Spoils (p >>= f) s := by
  obtain ⟨e, t, hp, ht⟩ := h
  refine ⟨e, t, ?_, ht⟩
  change EStateM.bind p f s = _
  unfold EStateM.bind
  rw [hp]

theorem Spoils.after {p : Parser α} {f : α → Parser β} {a : α} (hp : p s = .ok a t) (h : Spoils (f a) t) :
    Spoils (p >>= f) s := by
  obtain ⟨e, u, hf, hu⟩ := h
  exact ⟨e, u, (bind_eq hp f).trans hf, hu⟩

/-- How the tokens of a part are read that come to a literal without a value. -/
def IsSpoiled : ConstantPart → List Token → Prop
  | .sum, u => ∀ s v, s.unread = u ++ v → Spoils additive s
  | .more, w => (∃ a rest, w = a :: rest ∧ a.kind = .plus) ∧
      ∀ s v, s.unread = w ++ v → Spoils (many (whenever (eat .plus) (unary additive))) s
  | .operand, u =>
      ∀ s v, s.unread = u ++ v → ∃ signs t, Items (eat? .minus) s signs t ∧ Spoils (primary additive) t
  | .atom, u =>
      (∃ a rest, u = a :: rest ∧ a.kind ≠ .minus) ∧ ∀ s v, s.unread = u ++ v → Spoils (primary additive) s

theorem IsSpoiled.unary {u v : List Token} (h : IsSpoiled .operand u) (hunread : s.unread = u ++ v) :
    Spoils (unary additive) s := by
  obtain ⟨signs, t, hsigns, hprimary⟩ := h s v hunread
  exact .after hsigns.many_eq hprimary.bind

/-- Behind a sign a summand is read. -/
theorem whenever_plus {v : List Token} {sign : Token} (hunread : s.unread = sign :: v)
    (hsign : sign.kind = .plus) :
    whenever (eat .plus) (unary additive) s = (some <$> unary additive) (s.pass 1) := by
  have hcheck : s.check .plus = true :=
    decide_eq_true ((congrArg Token.kind (current_of_unread hunread)).trans hsign)
  exact (bind_eq (eat_eq_true hcheck) _).trans rfl

/-- A literal without a value is reported where an operand is read. -/
theorem spoils_literal {a : Token} {e : ParseError} {v : List Token} (hvalue : literalValue? a = .error e)
    (hunread : s.unread = a :: v) : Spoils (primary additive) s := by
  rw [← current_of_unread hunread] at hvalue
  have hvalued := hasValue_of_literalValue?_error hvalue
  have hliteral := primary_literal additive (TokenKind.ne_of_hasValue hvalued rfl)
    (TokenKind.ne_of_hasValue hvalued rfl)
  exact ⟨e, (s.report e).pass 1,
    hliteral.trans (literal_eq_error hvalue), by simp [ParserState.report, ParserState.pass]⟩

theorem isSpoiled {part : ConstantPart} {u : List Token} (h : SpoiledPhrase part u) : IsSpoiled part u := by
  induction h with
  | literal hvalue =>
      exact ⟨⟨_, [], rfl, TokenKind.ne_of_hasValue (hasValue_of_literalValue?_error hvalue) rfl⟩,
        fun s v hunread => spoils_literal hvalue hunread⟩
  | @paren opening u hopening _ ih =>
      refine ⟨⟨_, _, rfl, by rw [hopening]; decide⟩, fun s v hunread => ?_⟩
      have hkind := (kind_current hunread).trans hopening
      have hspoils : Spoils (additive >>= fun inner => do
          let _ ← expect .rightParen
          return Expr.paren inner (← spanFrom s.current.span)) (s.pass 1) :=
            (ih _ v (unread_cons hunread)).bind
      obtain ⟨e, t, hrun, ht⟩ := hspoils
      refine ⟨e, t, ?_, ht⟩
      change (if s.current.kind = .leftParen then _ else _ : Parser Expr) s = _
      rw [if_pos hkind]
      exact (bind_eq (p := advance) rfl _).trans hrun
  | @atom u _ ih =>
      obtain ⟨⟨a, rest, rfl, hne⟩, hspoils⟩ := ih
      intro s v hunread
      have hcheck : s.check .minus = false :=
        decide_eq_false fun heq => hne ((kind_current hunread).symm.trans heq)
      exact ⟨[], s, .done (eat?_eq_none hcheck), hspoils s v hunread⟩
  | @minus sign u hsign _ ih =>
      intro s v hunread
      have hcheck : s.check .minus = true := decide_eq_true ((kind_current hunread).trans hsign)
      obtain ⟨signs, t, hsigns, hprimary⟩ := ih _ v (unread_cons hunread)
      exact ⟨_, t, .more (eat?_eq_some hcheck) (ParserState.pass_lt_of_check (by decide) hcheck) hsigns,
        hprimary⟩
  | @first u _ ih =>
      intro s v hunread
      rw [show additive = additiveOf additive from additive_recurs.eq ()]
      exact (IsSpoiled.unary ih hunread).bind
  | @later u w operand _ ih =>
      intro s v hunread
      obtain ⟨⟨a, rest, rfl, hplus⟩, hmore⟩ := ih
      have hbehind := unread_append hunread
      obtain ⟨e, he, -⟩ := (isRead operand).unary s (a :: rest ++ v) (by rw [hunread, List.append_assoc])
        (by rw [kind_current hbehind, hplus]; decide)
      rw [show additive = additiveOf additive from additive_recurs.eq ()]
      exact .after he (hmore _ v hbehind).bind
  | @plus sign u hsign _ ih =>
      refine ⟨⟨_, _, rfl, hsign⟩, fun s v hunread => ?_⟩
      rw [loopsAdvance.summands.eq]
      obtain ⟨e, t, hrun, ht⟩ := IsSpoiled.unary ih (unread_cons hunread)
      have hround : Spoils (whenever (eat .plus) (unary additive)) s := by
        refine ⟨e, t, (whenever_plus hunread hsign).trans ?_, ht⟩
        change EStateM.map some (unary additive) _ = _
        unfold EStateM.map
        rw [hrun]
      exact hround.bind
  | @more sign u w hsign operand _ ih =>
      refine ⟨⟨_, _, rfl, hsign⟩, fun s v hunread => ?_⟩
      obtain ⟨⟨a, rest, rfl, hplus⟩, hmore⟩ := ih
      have hinside := unread_cons hunread
      have hbehind := unread_append hinside
      obtain ⟨e, he, -⟩ :=
        (isRead operand).unary (s.pass 1) (a :: rest ++ v) (by rw [hinside, List.append_assoc])
        (by rw [kind_current hbehind, hplus]; decide)
      rw [loopsAdvance.summands.eq]
      exact .after ((whenever_plus hunread hsign).trans (map_eq he some)) (hmore _ v hbehind).bind

/-- Where the attempt to read a constant comes to a literal without a value it leaves an error behind. -/
theorem spoils_additive {u v : List Token} (h : SpoiledPhrase .sum u) (hunread : s.unread = u ++ v) :
    Spoils additive s :=
  isSpoiled h s v hunread

end Parser

/-! ### Extent -/

namespace SpoiledPhrase

open Skip

variable {part : ConstantPart} {u : List Token} {terminators : List TokenKind}

/-- A search for a comma, a semicolon or a closing parenthesis passes a spoiled phrase, and
may be in brackets then. -/
theorem exists_depth (h : SpoiledPhrase part u) (hterm : terminators ⊆ [.comma, .semicolon, .rightParen])
    (depth : Nat) :
    ∃ depth', ∀ v, untilLength terminators depth (u ++ v) =
      .after u.length (untilLength terminators depth' v) := by
  have hstep : ∀ {a : Token}, a.kind ∉ [TokenKind.comma, .semicolon, .rightParen] ∧ a.kind.isCloser = false →
      ∀ depth v, untilLength terminators depth (a :: v) =
      .after 1 (untilLength terminators (depthAfter depth a) v) :=
    fun ⟨hend, hclose⟩ depth v => by
      rw [untilLength, if_neg]
      rintro ⟨-, hmem | hcloser⟩
      · exact hend (hterm hmem)
      · rw [hclose] at hcloser
        cases hcloser
  have hconstant : ∀ {part : ConstantPart} {w : List Token}, ConstantPhrase part w → ∀ depth v,
      untilLength terminators depth (w ++ v) = .after w.length (untilLength terminators depth v) := by
    intro part w hw depth v
    cases depth with
    | zero => exact hw.hidden hterm v
    | succ depth => exact untilLength_nested hw.nested depth v
  -- the first token, and the others behind it
  have hcons : ∀ {a : Token} {w : List Token}, a.kind ∉ [TokenKind.comma, .semicolon, .rightParen] ∧
      a.kind.isCloser = false → (∀ depth, ∃ depth', ∀ v,
        untilLength terminators depth (w ++ v) = .after w.length (untilLength terminators depth' v)) →
      ∀ depth, ∃ depth', ∀ v, untilLength terminators depth (a :: w ++ v) =
        .after (a :: w).length (untilLength terminators depth' v) := by
    intro a w ha hw depth
    obtain ⟨depth', hdepth⟩ := hw (depthAfter depth a)
    refine ⟨depth', fun v => ?_⟩
    rw [List.cons_append, hstep ha, hdepth, after_after, List.length_cons, Nat.add_comm]
  have happend : ∀ {u w : List Token} {part : ConstantPart}, ConstantPhrase part u → (∀ depth, ∃ depth', ∀ v,
        untilLength terminators depth (w ++ v) = .after w.length (untilLength terminators depth' v)) →
      ∀ depth, ∃ depth', ∀ v, untilLength terminators depth (u ++ w ++ v) =
        .after (u ++ w).length (untilLength terminators depth' v) := by
    intro u w part hu hw depth
    obtain ⟨depth', hdepth⟩ := hw depth
    refine ⟨depth', fun v => ?_⟩
    rw [List.append_assoc, hconstant hu, hdepth, after_after, List.length_append]
  induction h generalizing depth with
  | @literal a _ hvalue =>
      refine hcons (w := []) ?_ (fun depth => ⟨depth, fun v => by simp [Distance.after]⟩) depth
      have hkind := Parser.hasValue_of_literalValue?_error hvalue
      cases h : a.kind <;> rw [h] at hkind <;> first | decide | cases hkind
  | paren hopening _ ih => exact hcons (by rw [hopening]; decide) ih depth
  | atom _ ih | first _ ih => exact ih depth
  | minus hsign _ ih => exact hcons (by rw [hsign]; decide) ih depth
  | later first _ ih => exact happend first ih depth
  | plus hsign _ ih => exact hcons (by rw [hsign]; decide) ih depth
  | more hsign operand _ ih => exact hcons (by rw [hsign]; decide) (happend operand ih) depth

/-- A spoiled phrase does not go on behind the place where a search for the end of the expression stops. -/
theorem length_le_count (h : SpoiledPhrase part u) (hterm : terminators ⊆ [.comma, .semicolon, .rightParen])
    (v : List Token) : u.length ≤ (untilLength terminators 0 (u ++ v)).count := by
  obtain ⟨depth, hdepth⟩ := h.exists_depth hterm 0
  rw [hdepth]
  exact Nat.le_add_right _ _

end SpoiledPhrase

end Graft
