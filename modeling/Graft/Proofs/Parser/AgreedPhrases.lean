/-
Module: Graft.Proofs.Parser.AgreedPhrases
Purpose: Types, expressions, attributes and modifiers that are read without regard to places.
Main exports: Parser.Agrees.type, Parser.Agrees.namedType, Parser.Agrees.expr, Parser.Agrees.attributeLists

Each production agrees with itself on states that differ in places only, and what it yields there is the same
without the places of its parts.  A production that is given a place may be given another one.
-/
import Graft.Proofs.Parser.Agreement
import Graft.Proofs.Syntax.Unplaced

namespace Graft.Parser

/-- What suffixes make of types that differ in places only differs in places only. -/
def SameSuffix (f g : TypeSyntax → TypeSyntax) : Prop :=
  ∀ a b, EqualBy TypeSyntax.unplaced a b → EqualBy TypeSyntax.unplaced (f a) (g b)

theorem isRankSpecifier_congr {s s' : ParserState} (hs : s.Alike s') :
    isRankSpecifier s = isRankSpecifier s' := by
  have hkinds : ∀ list : List Token,
      ((list.drop 1).dropWhile (·.kind = .comma)).head?.any (·.kind = .rightBracket) =
        ((((list.map Token.kind).drop 1).dropWhile (· = .comma)).head?.any (· = .rightBracket)) := by
    intro list
    rw [← List.map_drop, List.dropWhile_map, List.head?_map, Option.any_map]
    rfl
  rw [isRankSpecifier, isRankSpecifier, hs.check, hkinds, hs.kinds, hkinds]

namespace Agrees

/-! ### Types -/

theorem ident : Agrees (EqualBy Ident.unplaced) Parser.ident Parser.ident := by
  refine bind peek fun t t' ht => ?_
  dsimp only
  refine ite (by rw [Token.kind_eq_of_mark ht])
    (bind (failAt (R := fun _ _ => False) _) fun _ _ h => h.elim) ?_
  exact bind advance fun _ _ _ => pure (congrArg (Ident.mk · .nowhere) (Token.name_eq_of_mark ht))

theorem commas : Agrees Eq Parser.commas Parser.commas :=
  bind (many (eat? .comma)) fun _ _ hlist => pure hlist.length_eq

theorem typeSuffix (start start' : Span) :
    Agrees (Option.Rel SameSuffix) (Parser.typeSuffix start) (Parser.typeSuffix start') := by
  refine bind get fun s s' hs => ite (by rw [hs.check]) ?_ (ite (by rw [hs.check]) ?_
    (ite (by rw [isRankSpecifier_congr hs]) ?_ (pure .none)))
  · refine bind advance fun _ _ _ => bind (spanFrom start start') fun _ _ _ => pure (.some fun a b hab => ?_)
    rw [EqualBy, TypeSyntax.unplaced, TypeSyntax.unplaced, hab]
  · refine bind advance fun _ _ _ => bind (spanFrom start start') fun _ _ _ => pure (.some fun a b hab => ?_)
    rw [EqualBy, TypeSyntax.unplaced, TypeSyntax.unplaced, hab]
  · refine bind advance fun _ _ _ => bind commas fun rank rank' hrank =>
      bind (expect .rightBracket) fun _ _ _ =>
      bind (spanFrom start start') fun _ _ _ => pure (.some fun a b hab => ?_)
    rw [EqualBy, TypeSyntax.unplaced, TypeSyntax.unplaced, hab, hrank]

section

variable {type type' : Parser TypeSyntax} (htype : Agrees (EqualBy TypeSyntax.unplaced) type type')
include htype

theorem typeArgs : Agrees (EqualBy (List.map TypeSyntax.unplaced)) (Parser.typeArgs type)
    (Parser.typeArgs type') := by
  refine bind (expect .less) fun _ _ _ => bind (check .greater) fun _ _ hgreater => bind (check .comma)
    fun _ _ hcomma => ite (by rw [hgreater, hcomma]) ?_ ?_
  · exact bind commas fun _ _ _ => bind (expect .greater) fun _ _ _ => pure rfl
  · exact bind (separated htype) fun _ _ hargs => bind (expect .greater) fun _ _ _ =>
      pure (forall₂_iff_map_eq.1 hargs)

theorem typeSegment (withArgs : Bool) :
    Agrees (EqualBy TypeSegment.unplaced) (Parser.typeSegment type withArgs)
      (Parser.typeSegment type' withArgs) := by
  have hsegment : ∀ {name name' : Ident} {args args' : List TypeSyntax}, EqualBy Ident.unplaced name name' →
      EqualBy (List.map TypeSyntax.unplaced) args args' →
        EqualBy TypeSegment.unplaced ⟨name, args⟩ ⟨name', args'⟩ := by
    intro name name' args args' hname hargs
    rw [EqualBy, TypeSegment.unplaced, TypeSegment.unplaced, TypeSyntax.unplacedArgs_eq,
      TypeSyntax.unplacedArgs_eq, hname, hargs]
  refine bind ident fun _ _ hname => bind (check .less) fun _ _ hless => ite (by rw [hless]) ?_ ?_
  · exact bind (typeArgs htype) fun _ _ hargs => pure (hsegment hname hargs)
  · exact pure (hsegment hname rfl)

theorem namedTypeOf (withArgs : Bool) :
    Agrees (EqualBy NamedType.unplaced) (Parser.namedTypeOf type withArgs)
      (Parser.namedTypeOf type' withArgs) := by
  refine bind peek fun t t' _ => bind (check .identifier) fun _ _ hidentifier =>
    bind (kindAhead 1) fun _ _ hcolon => ?_
  extract_lets rest rest'
  have hrest : ∀ qualifier? qualifier?', EqualBy (Option.map Ident.unplaced) qualifier? qualifier?' →
      Agrees (EqualBy NamedType.unplaced) (rest qualifier?) (rest' qualifier?') := by
    intro qualifier? qualifier?' hqualifier
    refine bind (typeSegment htype withArgs) fun first first' hfirst =>
      bind (many (R := EqualBy TypeSegment.unplaced) ?_)
      fun more more' hmore => bind (spanFrom _ _) fun _ _ _ => pure ?_
    · refine bind (check .dot) fun _ _ hdot => bind (kindAhead 1) fun _ _ hnext =>
        ite (by rw [hdot, hnext]) ?_ (pure .none)
      exact bind advance fun _ _ _ => map (typeSegment htype withArgs) fun _ _ h => .some h
    · rw [EqualBy, NamedType.unplaced_eq, NamedType.unplaced_eq, hqualifier, List.map_cons,
        List.map_cons, hfirst, forall₂_iff_map_eq.1 hmore]
  refine ite (by rw [hidentifier, hcolon]) ?_ (hrest _ _ rfl)
  exact bind ident fun _ _ hname => bind advance fun _ _ _ => hrest _ _ (congrArg some hname)

theorem tupleType : Agrees (EqualBy TypeSyntax.unplaced) (Parser.tupleType type)
    (Parser.tupleType type') := by
  refine bind (expect .leftParen) fun _ _ _ => bind (separated (R := EqualBy TypeSyntax.unplacedElement) ?_)
    fun _ _ helements => bind (expect .rightParen) fun _ _ _ => bind (spanFrom _ _) fun _ _ _ => pure ?_
  · refine bind htype fun _ _ helement => bind (whenever (check .identifier) ident) fun _ _ hname => pure ?_
    rw [EqualBy, TypeSyntax.unplacedElement, TypeSyntax.unplacedElement, helement, rel_iff_map_eq.1 hname]
  · rw [EqualBy, TypeSyntax.unplaced, TypeSyntax.unplaced, TypeSyntax.unplacedElements_eq,
      TypeSyntax.unplacedElements_eq, forall₂_iff_map_eq.1 helements]

theorem baseType : Agrees (EqualBy TypeSyntax.unplaced) (Parser.baseType type) (Parser.baseType type') := by
  refine bind peek fun t t' ht => ?_
  rw [Token.kind_eq_of_mark ht]
  split
  · refine bind advance fun _ _ _ => pure ?_
    rw [EqualBy, TypeSyntax.unplaced, TypeSyntax.unplaced, Token.lexeme_eq_of_mark ht]
  · exact tupleType htype
  · refine map (namedTypeOf htype true) fun _ _ hname => ?_
    rw [EqualBy, TypeSyntax.unplaced, TypeSyntax.unplaced, hname]
  · exact failAt _

theorem typeOf : Agrees (EqualBy TypeSyntax.unplaced) (Parser.typeOf type) (Parser.typeOf type') := by
  refine bind (baseType htype) fun base base' hbase =>
    bind (many (typeSuffix _ _)) fun suffixes suffixes' hsuffixes =>
    pure ?_
  induction hsuffixes generalizing base base' with
  | nil => exact hbase
  | cons hsuffix _ ih => exact ih _ _ (hsuffix _ _ hbase)

end

theorem type : Agrees (EqualBy TypeSyntax.unplaced) Parser.type Parser.type :=
  fix (I := fun _ _ => True) (fun _ _ hinner _ _ _ => typeOf (hinner () () trivial)) trivial

theorem namedType (withArgs : Bool) :
    Agrees (EqualBy NamedType.unplaced) (Parser.namedType withArgs) (Parser.namedType withArgs) :=
  namedTypeOf type withArgs

theorem typeParam : Agrees (EqualBy Ident.unplaced) Parser.typeParam Parser.typeParam := by
  refine bind (many (whenever (check .leftBracket) skipGroup)) fun _ _ _ => bind peek fun t t' ht => ?_
  dsimp only
  rw [Token.kind_eq_of_mark ht, Token.lexeme_eq_of_mark ht]
  exact ite Iff.rfl (bind advance fun _ _ _ => ident) ident

theorem typeParams : Agrees (EqualBy (List.map Ident.unplaced)) Parser.typeParams Parser.typeParams := by
  refine bind (eat .less) fun _ _ hless => ite (by rw [hless]) ?_ (pure rfl)
  exact bind (separated typeParam) fun _ _ hparams => bind (expect .greater) fun _ _ _ =>
    pure (forall₂_iff_map_eq.1 hparams)

/-! ### Expressions -/

/-- The value of a literal, or the cause of its error, is told from its class and its text. -/
theorem literalValue?_congr {t t' : Token} (ht : EqualBy Token.mark t t') :
    (literalValue? t).mapError (·.cause) = (literalValue? t').mapError (·.cause) := by
  obtain ⟨kind, lexeme, span⟩ := t
  obtain ⟨kind', lexeme', span'⟩ := t'
  obtain ⟨rfl, rfl⟩ := Prod.mk.inj ht
  have hescape : ∀ {α : Type} (text : Except Nat α) (f : α → Option LiteralValue) (g g' : Nat → ParseError),
      (∀ n, (g n).cause = (g' n).cause) →
        (f <$> text.mapError g).mapError (·.cause) = (f <$> text.mapError g').mapError (·.cause) := by
    intro α text f g g' hg
    cases text with
    | ok _ => rfl
    | error n => exact congrArg Except.error (hg n)
  unfold literalValue?
  dsimp only
  cases kind
  case stringLiteral | interpolatedString | charLiteral => exact hescape _ _ _ _ fun _ => rfl
  case intLiteral =>
    dsimp only
    cases Number.integer? lexeme.toList <;> rfl
  all_goals rfl

theorem literal : Agrees (EqualBy Expr.unplaced) Parser.literal Parser.literal := by
  refine bind peek fun t t' ht => ?_
  have hvalue := literalValue?_congr ht
  cases h : literalValue? t with
  | error e =>
      cases h' : literalValue? t' with
      | error e' =>
          rw [h, h'] at hvalue
          exact bind (modify fun _ _ hs => (hs.report (Except.error.inj hvalue)).pass 1) fun _ _ _ =>
            throw (Except.error.inj hvalue)
      | ok _ =>
          rw [h, h'] at hvalue
          cases hvalue
  | ok value? =>
      cases h' : literalValue? t' with
      | error _ =>
          rw [h, h'] at hvalue
          cases hvalue
      | ok value?' =>
          rw [h, h'] at hvalue
          obtain rfl := Except.ok.inj hvalue
          cases value? with
          | none => exact failExpecting _
          | some value => exact bind advance fun _ _ _ => pure rfl

theorem isNameOf_congr {s s' : ParserState} (hs : s.Alike s') : isNameOf s = isNameOf s' := by
  rw [isNameOf, isNameOf, hs.checkWord, hs.kind_ahead]

section

variable {additive additive' : Parser Expr} (hadditive : Agrees (EqualBy Expr.unplaced) additive additive')
include hadditive

theorem primary : Agrees (EqualBy Expr.unplaced) (Parser.primary additive) (Parser.primary additive') := by
  refine bind peek fun t t' ht => ite (by rw [Token.kind_eq_of_mark ht]) ?_ ?_
  · refine bind advance fun _ _ _ => bind hadditive fun _ _ hinner => bind (expect .rightParen) fun _ _ _ =>
      bind (spanFrom _ _) fun _ _ _ => pure (congrArg (Expr.paren · .nowhere) hinner)
  · refine bind get fun _ _ hs => ite (by rw [isNameOf_congr hs]) ?_ (ite (by rw [Token.kind_eq_of_mark ht])
      (map (namedType false) fun _ _ hname => congrArg Expr.name hname) literal)
    exact bind advance fun _ _ _ => bind advance fun _ _ _ => bind (namedType true) fun _ _ htarget =>
      bind (expect .rightParen) fun _ _ _ => bind (spanFrom _ _) fun _ _ _ =>
        pure (congrArg (Expr.nameOf · .nowhere) htarget)

theorem unary : Agrees (EqualBy Expr.unplaced) (Parser.unary additive) (Parser.unary additive') := by
  refine bind (many (eat? .minus)) fun signs signs' hsigns =>
    bind (primary hadditive) fun operand operand' hoperand =>
    pure ?_
  induction hsigns with
  | nil => exact hoperand
  | cons _ _ ih => exact congrArg (Expr.negate · .nowhere) ih

theorem additiveOf :
    Agrees (EqualBy Expr.unplaced) (Parser.additiveOf additive) (Parser.additiveOf additive') := by
  refine bind (unary hadditive) fun first first' hfirst =>
    bind (many (whenever (eat .plus) (unary hadditive))) fun more more' hmore => pure ?_
  induction hmore generalizing first first' with
  | nil => exact hfirst
  | cons hnext _ ih =>
      refine ih _ _ ?_
      rw [EqualBy, Expr.unplaced, Expr.unplaced, hfirst, hnext]

end

theorem additive : Agrees (EqualBy Expr.unplaced) Parser.additive Parser.additive :=
  fix (I := fun _ _ => True) (fun _ _ hinner _ _ _ => additiveOf (hinner () () trivial)) trivial

theorem expr (terminators : List TokenKind) :
    Agrees (EqualBy Expr.unplaced) (Parser.expr terminators) (Parser.expr terminators) := by
  refine bind get fun start start' hstart => bind (attempt additive) fun constant? constant?' hconstant => ?_
  extract_lets rest rest'
  have hrest : Agrees (EqualBy Expr.unplaced) (rest ()) (rest' ()) := by
    refine bind (modify fun _ _ hs => hs.rewind hstart) fun _ _ _ =>
      bind (skipUntil terminators) fun _ _ _ =>
      bind get fun s s' hs => ite (by rw [hs.length_eq, hstart.length_eq]) ?_ (pure rfl)
    exact bind (modify fun _ _ hs' => hs'.report (hs.unexpected _)) fun _ _ _ => pure rfl
  cases hconstant with
  | none => exact hrest
  | some hvalue =>
      exact bind peek fun _ _ ht => ite (by rw [Token.kind_eq_of_mark ht]) (pure hvalue) hrest

/-! ### Attributes and modifiers -/

theorem nameToken : Agrees (EqualBy Ident.unplaced) Parser.nameToken Parser.nameToken :=
  bind advance fun _ _ ht => pure (congrArg (Ident.mk · .nowhere) (Token.name_eq_of_mark ht))

theorem argument : Agrees (EqualBy ArgumentSyntax.unplaced) Parser.argument Parser.argument := by
  refine bind get fun s s' hs => ?_
  extract_lets start separator rest start' separator' rest'
  have hseparator : separator = separator' := hs.kind_ahead 1
  have hrest : ∀ role role', EqualBy ArgumentRole.unplaced role role' →
      Agrees (EqualBy ArgumentSyntax.unplaced) (rest role) (rest' role') := by
    intro role role' hrole
    refine bind (expr _) fun _ _ hvalue => bind (spanFrom _ _) fun _ _ _ => pure ?_
    rw [EqualBy, ArgumentSyntax.unplaced, ArgumentSyntax.unplaced, hrole, hvalue]
  refine ite (by rw [hs.check, hseparator]) ?_ (hrest _ _ rfl)
  refine bind nameToken fun name name' hname => bind advance fun _ _ _ => hrest _ _ ?_
  rw [hseparator]
  split
  · exact congrArg ArgumentRole.parameter hname
  · exact congrArg ArgumentRole.property hname

theorem arguments : Agrees (EqualBy (List.map ArgumentSyntax.unplaced)) Parser.arguments
    Parser.arguments := by
  refine fix (I := fun _ _ => True) (fun rest rest' hrest _ _ _ => ?_) trivial
  refine bind (check .rightParen) fun _ _ hparen => bind atEnd fun _ _ hend =>
    ite (by rw [hparen, hend]) (pure rfl) ?_
  refine bind argument fun _ _ hvalue => bind (eat .comma) fun _ _ hcomma => ite (by rw [hcomma]) ?_ ?_
  · exact bind (hrest () () trivial) fun _ _ hlist =>
      pure (by rw [EqualBy, List.map_cons, List.map_cons, hvalue, hlist])
  · exact pure (congrArg ([·]) hvalue)

theorem attributeItem :
    Agrees (EqualBy AttributeSyntax.unplaced) Parser.attributeItem Parser.attributeItem := by
  refine bind peek fun t t' _ => bind (namedType true) fun name name' hname =>
    bind (eat .leftParen) fun _ _ hparen => ?_
  extract_lets rest rest'
  have hrest : ∀ list list', EqualBy (List.map ArgumentSyntax.unplaced) list list' →
      Agrees (EqualBy AttributeSyntax.unplaced) (rest list) (rest' list') := by
    intro list list' hlist
    refine bind (spanFrom _ _) fun _ _ _ => pure ?_
    rw [EqualBy, AttributeSyntax.unplaced, AttributeSyntax.unplaced, hname, hlist]
  refine ite (by rw [hparen]) ?_ (hrest _ _ rfl)
  exact bind arguments fun _ _ hlist => bind (expect .rightParen) fun _ _ _ => hrest _ _ hlist

theorem isTarget_congr {s s' : ParserState} (hs : s.Alike s') : isTarget s = isTarget s' := by
  rw [isTarget, isTarget, hs.kind_current, hs.kind_ahead]

theorem attributeList :
    Agrees (EqualBy AttributeList.unplaced) Parser.attributeList Parser.attributeList := by
  refine bind (expect .leftBracket) fun _ _ _ => bind get fun s s' hs => ?_
  extract_lets rest rest'
  have hrest : ∀ target? target?', EqualBy (Option.map Ident.unplaced) target? target?' →
      Agrees (EqualBy AttributeList.unplaced) (rest target?) (rest' target?') := by
    intro target? target?' htarget
    refine bind attributeItem fun first first' hfirst =>
      bind (many (R := EqualBy AttributeSyntax.unplaced) ?_)
      fun more more' hmore => bind (expect .rightBracket) fun _ _ _ =>
      bind (spanFrom _ _) fun _ _ _ => pure ?_
    · refine bind (eat .comma) fun _ _ hcomma => ite (by rw [hcomma]) ?_ (pure .none)
      exact bind (check .rightBracket) fun _ _ hbracket => ite (by rw [hbracket]) (pure .none)
        (map attributeItem fun _ _ h => .some h)
    · rw [EqualBy, AttributeList.unplaced, AttributeList.unplaced, htarget, List.map_cons,
        List.map_cons, hfirst, forall₂_iff_map_eq.1 hmore]
  refine ite (by rw [isTarget_congr hs]) ?_ (hrest _ _ rfl)
  exact bind nameToken fun _ _ hname => bind advance fun _ _ _ => hrest _ _ (congrArg some hname)

theorem attributeLists :
    Agrees (EqualBy (List.map AttributeList.unplaced)) Parser.attributeLists Parser.attributeLists :=
  (many (whenever (check .leftBracket) attributeList)).mono fun _ _ => forall₂_iff_map_eq.1

theorem isModifier_congr {s s' : ParserState} (hs : s.Alike s') : isModifier s = isModifier s' := by
  rw [isModifier, isModifier, hs.kind_current, hs.lexeme_current, hs.kind_ahead]

theorem modifiers : Agrees Eq Parser.modifiers Parser.modifiers := by
  refine bind (many (whenever (bind get fun _ _ hs => pure (isModifier_congr hs)) advance))
    fun tokens tokens' htokens =>
    pure ?_
  have hlexemes := congrArg (List.map Prod.snd) (forall₂_iff_map_eq.1 htokens)
  rw [List.map_map, List.map_map] at hlexemes
  have hkeywords : ∀ list : List Token, list.filterMap (fun t => Modifiers.ofKeyword? t.lexeme) =
      (list.map (Prod.snd ∘ Token.mark)).filterMap Modifiers.ofKeyword? := fun list => by
    rw [List.filterMap_map]
    rfl
  rw [hkeywords, hlexemes, hkeywords]

end Agrees

end Graft.Parser
