/-
Module: Graft.Proofs.Parser.Productions
Purpose: What reading between the braces of a type keeps, production by production.
Main exports: Parser.PassInvariant.type, Parser.BodyInvariant.memberHead,
  Parser.MemberInvariant.memberAfter

Types, expressions and attributes stand outside braces, and the members of a type hold braces only in
groups that are passed as a whole.  The accessors of a property are the exception: their braces are
opened one token at a time, so what reading them keeps is asked for where a property is read.
-/
import Graft.Proofs.Parser.Yields
import Graft.Proofs.Syntax.Formed
import Graft.Proofs.Syntax.Named

namespace Graft.Parser

variable {α : Type} {P : Ident → Prop}

/-- A name that a token of a kind gives. -/
def IsNameOf (good : Token → Prop) (i : Ident) : Prop :=
  ∃ t, good t ∧ t.kind = .identifier ∧ i.name = t.name

/-- Behind the next token comes the one after it. -/
theorem current_pass (s : ParserState) (n : Nat) : (s.pass n).current = s.ahead n := by
  simp [ParserState.current, ParserState.ahead, ParserState.pass]

/-- What the tokens that a type is read from give it: a keyword or names, and at least one
segment, dimension or element. -/
def ReadFrom (good : Token → Prop) : TypeSyntax → Prop
  | .predefined keyword _ => ∃ t, good t ∧ t.kind = .predefinedType ∧ keyword = t.lexeme
  | .named name => name.segments ≠ [] ∧ (∀ qualifier ∈ name.alias?, IsNameOf good qualifier) ∧
      ∀ segment ∈ name.segments, IsNameOf good segment.name
  | .array _ rank _ => 0 < rank
  | .nullable _ _ | .pointer _ _ => True
  | .tuple elements _ => elements ≠ [] ∧ ∀ element ∈ elements, ∀ name ∈ element.name?, IsNameOf good name

/-- An identifier token is passed. -/
theorem ident_eq {s : ParserState} (h : s.current.kind = .identifier) :
    ident s = .ok ⟨s.current.name, s.current.span⟩ (s.pass 1) := by
  change (if s.current.kind ≠ .identifier then _ else _ : Parser Ident) s = _
  rw [if_neg (Decidable.not_not.2 h)]
  rfl

/-! ### Types -/

namespace PassInvariant

variable {I : ParserState → Prop} {good : Token → Prop} (inv : PassInvariant I good)
include inv

theorem ident : Yields I (IsNameOf good) ident := by
  refine fun s hs => .peek ?_
  dsimp only
  refine .ite (fun _ => ?_) fun h => ?_
  · exact (inv.failAt (Q := fun _ => False) _ s hs).bind fun _ _ _ h => h.2.elim
  · have hkind : s.current.kind = .identifier := Decidable.not_not.1 h
    refine (inv.advance hs (by rw [hkind]; rfl)).bind fun _ _ _ h => .pure ⟨h.1, ?_⟩
    exact ⟨s.current, inv.ahead 0 hs, hkind, rfl⟩

theorem commas : Keeps I commas := .bind (.keeps_many (inv.eat? rfl)) fun _ _ => .pure trivial

theorem typeSuffix (start : Span) : Yields I (fun suffix? => ∀ suffix ∈ suffix?, ∀ type : TypeSyntax,
    type.Every (ReadFrom good) → (suffix type).Every (ReadFrom good)) (typeSuffix start) := by
  refine fun s hs => .get ?_
  have hpassed : ∀ kind, kind.isBrace = false → s.check kind = true →
      Outcome (fun t u => I u ∧ good t) I Parser.advance s := fun kind hkind h =>
    inv.advance hs (by rw [kind_of_check h]; exact hkind)
  -- a suffix makes a type with the one before it directly in it
  have hsuffix : ∀ make : TypeSyntax → TypeSyntax,
      (∀ type, ReadFrom good (make type) ∧ (make type).inner = [type]) →
      ∀ suffix ∈ some make, ∀ type : TypeSyntax, type.Every (ReadFrom good) →
        (suffix type).Every (ReadFrom good) := by
    intro make hmake suffix hsuffix type htype
    obtain rfl := Option.some.inj hsuffix
    refine TypeSyntax.every_iff.2 ⟨(hmake type).1, ?_⟩
    rw [(hmake type).2]
    exact List.forall_mem_singleton.2 htype
  refine .ite (fun h => ?_) fun _ => .ite (fun h => ?_) fun _ => .ite (fun h => ?_) fun _ => ?_
  · exact (hpassed _ rfl h).bind fun _ _ _ h => .spanFrom <| .pure ⟨h.1, hsuffix _ fun _ => ⟨trivial, rfl⟩⟩
  · exact (hpassed _ rfl h).bind fun _ _ _ h => .spanFrom <| .pure ⟨h.1, hsuffix _ fun _ => ⟨trivial, rfl⟩⟩
  · rw [isRankSpecifier, Bool.and_eq_true] at h
    refine (hpassed _ rfl h.1).bind fun _ t _ h => Yields.bind inv.commas (fun _ _ => ?_) t h.1
    exact .bind (inv.expect rfl) fun _ _ => .bind (.spanFrom start) fun _ _ =>
      .pure (hsuffix _ fun _ => ⟨Nat.succ_pos _, rfl⟩)
  · exact .pure ⟨hs, fun _ h => by cases h⟩

section

variable {type : Parser TypeSyntax} {Q : TypeSyntax → Prop} (htype : Yields I Q type)
include htype

theorem typeArgs : Yields I (fun args => ∀ arg ∈ args, Q arg) (typeArgs type) := by
  refine .bind (inv.expect rfl) fun _ _ => .bind (.check .greater) fun _ _ =>
    .bind (.check .comma) fun _ _ => .ite (fun _ => ?_) fun _ => ?_
  · exact .bind inv.commas fun _ _ => .bind (inv.expect rfl) fun _ _ => .pure fun _ h =>
      absurd h List.not_mem_nil
  · exact .bind (inv.separated htype) fun _ hargs => .bind (inv.expect rfl) fun _ _ => .pure hargs

theorem typeSegment (withArgs : Bool) :
    Yields I (fun segment => IsNameOf good segment.name ∧ ∀ arg ∈ segment.args, Q arg)
      (typeSegment type withArgs) := by
  refine .bind inv.ident fun name hname => .bind (.check .less) fun _ _ => .ite (fun _ => ?_) fun _ => ?_
  · exact .bind (inv.typeArgs htype) fun _ hargs => .pure ⟨hname, hargs⟩
  · exact .bind (Q := fun args => args = []) (.pure rfl) fun _ hargs =>
      .pure ⟨hname, fun _ h => absurd (hargs ▸ h) List.not_mem_nil⟩

theorem namedTypeOf (withArgs : Bool) : Yields I (fun name => ReadFrom good (.named name) ∧
    ∀ part ∈ (TypeSyntax.named name).inner, Q part) (namedTypeOf type withArgs) := by
  refine fun s hs => .peek <| .check <| .kindAhead ?_
  extract_lets rest
  have hrest : ∀ qualifier?, (∀ qualifier ∈ qualifier?, IsNameOf good qualifier) →
      Yields I (fun name => ReadFrom good (.named name) ∧ ∀ part ∈ (TypeSyntax.named name).inner, Q part)
        (rest qualifier?) := by
    intro qualifier? hqualifier
    refine .bind (inv.typeSegment htype withArgs) fun first hfirst => .bind (.many
      (Q := fun segment => IsNameOf good segment.name ∧ ∀ arg ∈ segment.args, Q arg) ?_) fun more hmore =>
        .bind (.spanFrom _) fun _ _ => .pure ?_
    · refine fun t ht => .check <| .kindAhead <| .ite (fun h => ?_) fun _ =>
        .pure ⟨ht, fun _ h => by cases h⟩
      have hdot := kind_of_check (Bool.and_eq_true_iff.1 h).1
      refine (inv.advance ht (by rw [hdot]; rfl)).bind fun _ u _ h => ?_
      exact (inv.typeSegment htype withArgs).map
        (fun _ hsegment _ heq => Option.some.inj heq ▸ hsegment) u h.1
    · have hall : ∀ segment ∈ first :: more, IsNameOf good segment.name ∧ ∀ arg ∈ segment.args, Q arg :=
        List.forall_mem_cons.2 ⟨hfirst, hmore⟩
      exact ⟨⟨List.cons_ne_nil _ _, hqualifier, fun segment hsegment => (hall segment hsegment).1⟩,
        List.forall_mem_flatMap.2 fun segment hsegment => (hall segment hsegment).2⟩
  refine .ite (fun h => ?_) fun _ => hrest none (fun _ h => by cases h) s hs
  -- the qualifier and the `::` behind it
  rw [Bool.and_eq_true, decide_eq_true_eq] at h
  refine (inv.ident s hs).bind fun name t hname ht => ?_
  rw [ident_eq (kind_of_check h.1)] at hname
  cases hname
  refine (inv.advance ht.1 (by rw [current_pass, h.2]; rfl)).bind fun _ u _ hu => ?_
  exact hrest (some _) (fun _ heq => Option.some.inj heq ▸ ht.2) u hu.1

theorem tupleType : Yields I (fun type => ReadFrom good type ∧ ∀ part ∈ type.inner, Q part)
    (tupleType type) := by
  refine .bind (inv.expect rfl) fun _ _ => .bind (inv.separated_ne_nil
    (Q := fun element => Q element.type ∧ ∀ name ∈ element.name?, IsNameOf good name) ?_)
    fun elements helements => .bind (inv.expect rfl) fun _ _ => .bind (.spanFrom _) fun _ _ => .pure ?_
  · exact .bind htype fun _ htype => .bind (.whenever (.check _) inv.ident) fun _ hname =>
      .pure ⟨htype, hname⟩
  · exact ⟨⟨helements.1, fun element helement => (helements.2 element helement).2⟩,
      List.forall_mem_map.2 fun element helement => (helements.2 element helement).1⟩

theorem baseType : Yields I (fun type => ReadFrom good type ∧ ∀ part ∈ type.inner, Q part)
    (baseType type) := by
  refine fun s hs => .peek ?_
  split
  · rename_i hkind
    exact (inv.advance hs (by rw [hkind]; rfl)).bind fun _ _ _ h =>
      .pure ⟨h.1, ⟨s.current, inv.ahead 0 hs, hkind, rfl⟩, fun _ h => absurd h List.not_mem_nil⟩
  · exact inv.tupleType htype s hs
  · exact (inv.namedTypeOf htype true).map (fun _ h => h) s hs
  · exact inv.failAt _ s hs

end

theorem typeOf {type : Parser TypeSyntax} (htype : Yields I (TypeSyntax.Every (ReadFrom good)) type) :
    Yields I (TypeSyntax.Every (ReadFrom good)) (typeOf type) := by
  refine .bind (inv.baseType htype) fun base hbase =>
    .bind (.many (inv.typeSuffix _)) fun suffixes hsuffixes =>
    .pure ?_
  have hstart : base.Every (ReadFrom good) := TypeSyntax.every_iff.2 hbase
  clear hbase
  induction suffixes generalizing base with
  | nil => exact hstart
  | cons suffix rest ih =>
      exact ih (suffix base) (fun other hother => hsuffixes other (List.mem_cons_of_mem _ hother))
        (hsuffixes suffix List.mem_cons_self base hstart)

theorem type : Yields I (TypeSyntax.Every (ReadFrom good)) type :=
  .fix (Q := fun _ => TypeSyntax.Every (ReadFrom good)) (fun _ hinner _ => inv.typeOf (hinner ())) ()

theorem namedType (withArgs : Bool) : Keeps I (namedType withArgs) :=
  (inv.namedTypeOf inv.type withArgs).keeps

end PassInvariant

namespace BodyInvariant

variable {I : ParserState → Prop} {good : Token → Prop} (inv : BodyInvariant I good) {s : ParserState}
include inv

theorem typeParam : Yields I (IsNameOf good) typeParam := by
  refine .bind (.keeps_many (Yields.whenever_of (Q := fun _ => True) fun t ht h => ?_).keeps) fun _ _ => ?_
  · have hopener : t.current.kind.isOpener = true := by rw [kind_of_check h]; rfl
    exact (inv.skipGroup ht hopener).mono (fun _ _ h => ⟨h, trivial⟩) fun _ h => h
  · refine fun t ht => .peek <| .ite (fun h => ?_) fun _ => inv.ident t ht
    rw [Bool.and_eq_true, decide_eq_true_eq] at h
    exact (inv.advance ht (by rw [h.1]; rfl)).bind fun _ u _ hu => inv.ident u hu.1

theorem typeParams : Yields I (fun params => ∀ i ∈ params, IsNameOf good i) typeParams := by
  refine .bind (inv.eat rfl) fun _ _ => .ite (fun _ => ?_) fun _ => .pure (by simp)
  exact .bind (inv.separated inv.typeParam) fun _ hparams =>
    .bind (inv.expect rfl) fun _ _ => .pure hparams

/-! ### Expressions and attributes -/

omit inv in
/-- A brace is no literal. -/
theorem literalValue?_brace {t : Token} (h : t.kind.isBrace = true) : literalValue? t = .ok none := by
  unfold literalValue?
  cases hkind : t.kind <;> rw [hkind] at h <;> first | rfl | cases h

theorem literal : Keeps I literal := by
  refine fun s hs => .peek ?_
  have notBrace : literalValue? s.current ≠ .ok none → s.current.kind.isBrace = false := fun h =>
    Bool.eq_false_iff.2 fun hbrace => h (literalValue?_brace hbrace)
  split
  · rename_i e hvalue
    have hreport := inv.report e hs
    exact .modify <| .throw <| inv.pass hreport (notBrace (by simp [hvalue]))
  · exact Yields.failExpecting _ s hs
  · rename_i value hvalue
    exact (inv.advance hs (notBrace (by simp [hvalue]))).bind fun _ _ _ h => .pure ⟨h.1, trivial⟩

section

variable {additive : Parser Expr} (hadditive : Keeps I additive)
include hadditive

theorem primary : Keeps I (primary additive) := by
  refine fun s hs => .peek <| .ite (fun h => ?_) fun _ => .get <| .ite (fun h => ?_) fun _ =>
    .ite (fun _ => ?_) fun _ => inv.literal s hs
  · refine (inv.advance hs (by rw [h]; rfl)).bind fun _ t _ ht => ?_
    refine Yields.bind hadditive (fun _ _ => ?_) t ht.1
    exact .bind (inv.expect rfl) fun _ _ => .bind (.spanFrom _) fun _ _ => .pure trivial
  · simp only [isNameOf, ParserState.checkWord, Bool.and_eq_true, decide_eq_true_eq] at h
    refine (inv.advance hs (by rw [h.1.1]; rfl)).bind fun _ t ht hkept => ?_
    cases ht
    refine (inv.advance hkept.1 (by rw [current_pass, h.2]; rfl)).bind fun _ u _ hu => ?_
    refine Yields.bind (inv.namedType true) (fun _ _ => ?_) u hu.1
    exact .bind (inv.expect rfl) fun _ _ => .bind (.spanFrom _) fun _ _ => .pure trivial
  · exact (inv.namedType false).map (fun _ _ => trivial) s hs

theorem unary : Keeps I (unary additive) :=
  .bind (.keeps_many (inv.eat? rfl)) fun _ _ => .bind (inv.primary hadditive) fun _ _ =>
    .pure trivial

theorem additiveOf : Keeps I (additiveOf additive) :=
  .bind (inv.unary hadditive) fun _ _ =>
    .bind (.keeps_many (Yields.whenever (inv.eat rfl) (inv.unary hadditive)).keeps) fun _ _ =>
      .pure trivial

end

theorem additive : Keeps I additive :=
  .fix (Q := fun _ _ => True) (fun _ hinner _ => inv.additiveOf (hinner ())) ()

theorem expr (terminators : List TokenKind) : Keeps I (expr terminators) := by
  refine .bind .get fun start hstart =>
    .bind (Q := fun _ => True)
      (.tryCatch (.map inv.additive fun _ _ => trivial) fun _ => .pure trivial) fun constant? _ => ?_
  extract_lets rest
  have hrest : ∀ u, Keeps I (rest u) := by
    intro u
    refine .bind (.modify fun _ hs => inv.rewind hs hstart) fun _ _ =>
      .bind (inv.skipUntil terminators) fun _ _ => .bind .get fun _ _ =>
        .ite (fun _ => ?_) fun _ => .pure trivial
    exact .bind (.modify fun _ => inv.report _) fun _ _ => .pure trivial
  cases constant? with
  | none => exact hrest ()
  | some e =>
      exact .bind inv.peek fun _ _ => .ite (fun _ => .pure trivial) fun _ => hrest ()

/-- A name and the token behind it are passed. -/
theorem nameToken_advance {f : Ident → Parser α} {Q : α → Prop} (hs : I s)
    (name : s.current.kind.isBrace = false) (next : (s.ahead 1).kind.isBrace = false)
    (hf : ∀ i, Yields I Q (f i)) :
    Outcome (fun a t => I t ∧ Q a) I (nameToken >>= fun i => Parser.advance >>= fun _ => f i) s := by
  refine Outcome.bind (Q := fun _ t => I t ∧ t = s.pass 1) ?_ fun i t _ ht => ?_
  · exact (inv.advance hs name).bind fun _ t ht h => .pure ⟨h.1, by cases ht; rfl⟩
  · obtain ⟨ht, rfl⟩ := ht
    exact (inv.advance ht (by rw [current_pass]; exact next)).bind fun _ u _ hu => hf i u hu.1

theorem argument : Keeps I argument := by
  refine fun s hs => .get ?_
  extract_lets start separator rest
  have hrest : ∀ role, Keeps I (rest role) := fun role =>
    .bind (inv.expr _) fun _ _ => .bind (.spanFrom _) fun _ _ => .pure trivial
  refine .ite (fun h => ?_) fun _ => ?_
  · simp only [Bool.and_eq_true, Bool.or_eq_true, decide_eq_true_eq] at h
    refine inv.nameToken_advance hs (by rw [kind_of_check h.1]; rfl) ?_ fun name => ?_
    · rcases h.2 with h | h <;> rw [show (s.ahead 1).kind = _ from h] <;> rfl
    · exact .bind (Q := fun _ => True) (.pure trivial) fun _ _ => hrest _
  · exact Yields.bind (Q := fun _ => True) (.pure trivial) (fun _ _ => hrest _) s hs

theorem arguments : Keeps I arguments := by
  refine .fix (Q := fun _ _ => True) (fun rest hrest _ => ?_) ()
  refine .bind (.check _) fun _ _ => .bind .atEnd fun _ _ => .ite (fun _ => .pure trivial) fun _ =>
    .bind inv.argument fun _ _ => .bind (inv.eat rfl) fun _ _ => .ite (fun _ => ?_) fun _ =>
      .pure trivial
  exact .bind (hrest ()) fun _ _ => .pure trivial

theorem attributeItem : Keeps I attributeItem := by
  refine .bind inv.peek fun _ _ => .bind (inv.namedType true) fun _ _ =>
    .bind (inv.eat rfl) fun _ _ => .ite (fun _ => ?_) fun _ => ?_
  · exact .bind inv.arguments fun _ _ => .bind (inv.expect rfl) fun _ _ =>
      .bind (Q := fun _ => True) (.pure trivial) fun _ _ => .bind (.spanFrom _) fun _ _ =>
        .pure trivial
  · exact .bind (Q := fun _ => True) (.pure trivial) fun _ _ => .bind (.spanFrom _) fun _ _ =>
      .pure trivial

theorem attributeList : Keeps I attributeList := by
  refine .bind (inv.expect rfl) fun _ _ => fun s hs => .get ?_
  extract_lets rest
  have hrest : ∀ target?, Keeps I (rest target?) := by
    intro target?
    refine .bind inv.attributeItem fun _ _ => .bind (.keeps_many ?_) fun _ _ =>
      .bind (inv.expect rfl) fun _ _ => .bind (.spanFrom _) fun _ _ => .pure trivial
    refine .bind (inv.eat rfl) fun _ _ => .ite (fun _ => ?_) fun _ => .pure trivial
    exact .bind (.check _) fun _ _ => .ite (fun _ => .pure trivial) fun _ =>
      .map inv.attributeItem fun _ _ => trivial
  refine .ite (fun h => ?_) fun _ => ?_
  · simp only [isTarget, Bool.and_eq_true, Bool.or_eq_true, decide_eq_true_eq] at h
    refine inv.nameToken_advance hs ?_ (by rw [h.2]; rfl) fun name => ?_
    · rcases h.1 with (h | h) | h <;> rw [h] <;> rfl
    · exact .bind (Q := fun _ => True) (.pure trivial) fun _ _ => hrest _
  · exact Yields.bind (Q := fun _ => True) (.pure trivial) (fun _ _ => hrest _) s hs

theorem attributeLists : Keeps I attributeLists :=
  .keeps_many (Yields.whenever (.check _) inv.attributeList).keeps

omit inv in
theorem not_brace_of_isModifier (h : isModifier s = true) : s.current.kind.isBrace = false := by
  unfold isModifier at h
  cases hkind : s.current.kind <;> rw [hkind] at h <;> first | rfl | cases h

theorem modifiers : Keeps I modifiers := by
  refine .bind (.keeps_many (Yields.whenever_of (Q := fun _ => True) fun t ht h => ?_).keeps)
    fun _ _ => .pure trivial
  exact (inv.advance ht (not_brace_of_isModifier h)).mono (fun _ _ h => ⟨h.1, trivial⟩) fun _ h => h

theorem memberHead : Keeps I memberHead :=
  .bind inv.peek fun _ _ => .bind inv.attributeLists fun _ _ => .bind inv.modifiers fun _ _ =>
    .pure trivial

theorem initializer? : Keeps I initializer? := (Yields.whenever (inv.eat rfl) (inv.expr _)).keeps

theorem variableAfter (name : Ident) : Keeps I (variableAfter name) :=
  .bind inv.initializer? fun _ _ => .bind (.spanFrom _) fun _ _ => .pure trivial

theorem skipBases : Keeps I skipBases := by
  refine fun s hs => .check ?_
  extract_lets rest
  have hrest : ∀ u, Keeps I (rest u) := fun _ => .bind (.check _) fun _ _ => .bind .get fun _ _ =>
    .ite (fun _ => inv.skipUntil _) fun _ => .pure trivial
  refine .ite (fun h => ?_) fun _ => hrest () s hs
  exact (inv.skipGroup hs (by rw [kind_of_check h]; rfl)).bind fun _ t _ ht => hrest () t ht

/-- The words that say what is declared are passed if the first of them is. -/
theorem typeKind (first : Outcome (fun _ t => I t) I Parser.advance s) :
    Outcome (fun _ t => I t) I typeKind s := by
  refine first.bind fun token t _ ht => ?_
  split
  · exact .pure ht
  · exact .pure ht
  · exact .pure ht
  · exact .pure ht
  · refine (Yields.bind (Q := fun _ => True) (R := fun _ => True) (inv.eat rfl) (fun _ _ => ?_) t ht).mono
      (fun _ _ h => h.1) fun _ h => h
    exact .ite (fun _ => .pure trivial) fun _ => .bind (inv.eat rfl) fun _ _ => .pure trivial

end BodyInvariant

/-! ### Members -/

/-- A property of states that reading a member of a type keeps, and what holds in addition where the
member ends: behind a `;`, or behind a group of braces. -/
structure MemberInvariant (I J : ParserState → Prop) (good : Token → Prop) : Prop
    extends BodyInvariant I good where
  kept : ∀ {s : ParserState}, J s → I s
  semicolon : ∀ {s : ParserState}, I s → s.current.kind = .semicolon → J (s.pass 1)
  braces : ∀ {s : ParserState}, I s → s.current.kind = .leftBrace → J s.skipGroup

theorem BodyInvariant.member {I : ParserState → Prop} {good : Token → Prop}
    (inv : BodyInvariant I good) : MemberInvariant I I good where
  toBodyInvariant := inv
  kept h := h
  semicolon hs h := inv.pass hs (by rw [h]; rfl)
  braces hs h := inv.passGroup hs (by rw [h]; rfl)

namespace MemberInvariant

variable {I J : ParserState → Prop} {good : Token → Prop} {s : ParserState}
  (inv : MemberInvariant I J good)
include inv

theorem expect_semicolon (hs : I s) : Outcome (fun _ t => J t) I (expect .semicolon) s :=
  .expect (fun h => inv.semicolon hs (kind_of_check h)) fun _ => hs

theorem skipBody (hs : I s) : Outcome (fun _ t => J t) I skipBody s := by
  refine .peek <| .ite (fun h => inv.braces hs h) fun _ => ?_
  extract_lets rest
  have hrest : ∀ u {t}, I t → Outcome (fun _ t => J t) I (rest u) t := fun _ _ ht =>
    (inv.expect_semicolon ht).bind fun _ _ _ h => .pure h
  refine .ite (fun h => ?_) fun _ => hrest () hs
  refine (inv.advance hs (by rw [h]; rfl)).bind fun _ t _ ht => ?_
  exact (inv.skipUntil _ t ht.1).bind fun _ u _ hu => hrest () hu.1

theorem otherMember (hs : I s) (head : MemberHead) :
    Outcome (fun decl t => J t ∧ MemberDecl.Named P decl) I (otherMember head) s :=
  (inv.skipUntil _ s hs).bind fun _ _ _ ht => (inv.skipBody ht.1).bind fun _ _ _ hu =>
    .spanFrom <| .pure ⟨hu, trivial⟩

theorem method (hs : I s) (parameters : s.current.kind = .leftParen) (head : MemberHead)
    (type : TypeSyntax) (name : NamedType) :
    Outcome (fun decl t => J t ∧ MemberDecl.Named P decl) I (method head type name) s :=
  (inv.skipGroup hs (by rw [parameters]; rfl)).bind fun _ t _ ht =>
    (inv.skipUntil _ t ht).bind fun _ _ _ hu => (inv.skipBody hu.1).bind fun _ _ _ hv =>
      .spanFrom <| .pure ⟨hv, trivial⟩

theorem arrowBody (hs : I s) (arrow : s.current.kind = .arrow) :
    Outcome (fun _ t => J t) I arrowBody s :=
  (inv.advance hs (by rw [arrow]; rfl)).bind fun _ t _ ht =>
    (inv.skipUntil _ t ht.1).bind fun _ _ _ hu => .spanFrom <|
      (inv.expect_semicolon hu.1).bind fun _ _ _ hv => .pure hv

omit inv in
theorem accessorBody (inv : BodyInvariant I good) : Keeps I accessorBody := by
  refine fun s hs => .peek <| .ite (fun h => ?_) fun _ => .ite (fun h => ?_) fun _ => ?_
  · exact (inv.skipGroup hs (by rw [h]; rfl)).bind fun _ _ _ ht => .spanFrom <| .pure ⟨ht, trivial⟩
  · exact (inv.member.arrowBody hs h).map fun _ _ ht => ⟨ht, trivial⟩
  · exact (inv.expect rfl s hs).bind fun _ _ _ ht => .pure ⟨ht.1, trivial⟩

omit inv in
theorem accessor (inv : BodyInvariant I good) : Keeps I accessor := by
  refine .bind inv.memberHead fun _ _ => .bind inv.ident fun _ _ => ?_
  split
  · exact .throw
  · exact .bind (accessorBody inv) fun _ _ => .bind (.spanFrom _) fun _ _ => .pure trivial

/-- A property keeps what its accessors keep. -/
theorem property (hs : I s) (start : s.current.kind = .leftBrace ∨ s.current.kind = .arrow)
    (accessors : s.current.kind = .leftBrace → Outcome (fun _ t => J t) I accessors s)
    (head : MemberHead) (type : TypeSyntax) (name : NamedType) :
    Outcome (fun decl t => J t ∧ MemberDecl.Named P decl) I (property head type name) s := by
  refine .check ?_
  extract_lets rest
  have hrest : ∀ body {t}, J t →
      Outcome (fun decl t => J t ∧ MemberDecl.Named P decl) I (rest body) t := fun _ _ ht =>
    .spanFrom <| .pure ⟨ht, trivial⟩
  refine .ite (fun h => ?_) fun h => ?_
  · exact (inv.arrowBody hs (kind_of_check h)).bind fun span _ _ ht => hrest (.arrow span, none) ht
  · have hbrace := start.resolve_right fun harrow => h (decide_eq_true harrow)
    refine (accessors hbrace).bind fun list t _ ht => .eat (fun h => ?_) fun _ => ?_
    · have hequal := inv.pass (inv.kept ht) (by rw [kind_of_check h]; rfl)
      refine .ite (fun _ => ?_) fun h => absurd rfl h
      refine (inv.expr _ _ hequal).bind fun value u _ hu => ?_
      exact (inv.expect_semicolon hu.1).bind fun _ _ _ hv => hrest (.accessors list, some value) hv
    · exact .ite (fun h => absurd h Bool.false_ne_true) fun _ => hrest (.accessors list, none) ht

theorem field (hs : I s) (head : MemberHead) (type : TypeSyntax) (name : NamedType) :
    Outcome (fun decl t => J t ∧ MemberDecl.Named P decl) I (field head type name) s := by
  have hmore : Keeps I (many (whenever (eat .comma) do Parser.variableAfter (← ident))) :=
    .keeps_many (Yields.whenever (inv.eat rfl)
      (.bind inv.ident fun name _ => inv.variableAfter name)).keeps
  refine (inv.variableAfter _ s hs).bind fun _ t _ ht => (hmore t ht.1).bind fun _ u _ hu => ?_
  exact (inv.expect_semicolon hu.1).bind fun _ _ _ hv => .spanFrom <| .pure ⟨hv, trivial⟩

theorem event (hs : I s) (head : MemberHead) :
    Outcome (fun decl t => J t ∧ MemberDecl.Named P decl) I (event head) s := by
  refine (inv.expect rfl s hs).bind fun _ t _ ht => (inv.type t ht.1).bind fun _ u _ hu =>
    (inv.namedType false u hu.1).bind fun _ v _ hv => .check ?_
  extract_lets rest
  have hrest : ∀ more {w}, J w →
      Outcome (fun decl t => J t ∧ MemberDecl.Named P decl) I (rest more) w := fun _ _ hw =>
    .spanFrom <| .pure ⟨hw, trivial⟩
  refine .ite (fun h => ?_) fun _ => ?_
  · exact Outcome.bind (Q := fun _ w => J w) (inv.braces hv.1 (kind_of_check h)) fun _ _ _ hw =>
      hrest _ hw
  · have hmore : Keeps I (many (whenever (eat .comma) do
        let name ← ident
        let _ ← Parser.initializer?
        return name)) :=
      .keeps_many (Yields.whenever (inv.eat rfl) (.bind inv.ident fun _ _ =>
        .bind inv.initializer? fun _ _ => .pure (Q := fun _ => True) trivial)).keeps
    refine (inv.initializer? v hv.1).bind fun _ w _ hw => (hmore w hw.1).bind fun _ x _ hx => ?_
    exact (inv.expect_semicolon hx.1).bind fun _ _ _ hy => hrest _ hy

theorem memberNamed (hs : I s)
    (accessors : ∀ name t, namedType true s = .ok name t → t.current.kind = .leftBrace → I t →
      Outcome (fun _ u => J u) I accessors t) (head : MemberHead) (type : TypeSyntax) :
    Outcome (fun decl t => J t ∧ MemberDecl.Named P decl) I (memberNamed head type) s := by
  refine (inv.namedType true s hs).bind fun name t hname ht => .check <| .kindAhead <|
    .ite (fun _ => inv.otherMember ht.1 head) fun _ => .peek ?_
  have hproperty : t.current.kind = .leftBrace ∨ t.current.kind = .arrow →
      Outcome (fun decl t => J t ∧ MemberDecl.Named P decl) I (Parser.property head type name) t :=
    fun start => inv.property ht.1 start (fun h => accessors name t hname h ht.1) head type name
  split
  · rename_i h
    exact inv.method ht.1 h head type name
  · rename_i h
    exact hproperty (.inl h)
  · rename_i h
    exact hproperty (.inr h)
  · exact inv.field ht.1 head type name
  · exact inv.field ht.1 head type name
  · exact inv.field ht.1 head type name
  · exact (inv.failAt (Q := fun _ => False) _ t ht.1).mono (fun _ _ h => h.2.elim) fun _ h => h

/-- A member after its attributes and modifiers keeps what the accessors keep that it may have. -/
theorem memberAfter (hs : I s)
    (accessors : ∀ type t name u, Parser.type s = .ok type t → namedType true t = .ok name u →
      u.current.kind = .leftBrace → I u → Outcome (fun _ v => J v) I accessors u)
    (typeName : String) (head : MemberHead) :
    Outcome (fun decl t => J t ∧ MemberDecl.Named P decl) I (memberAfter typeName head) s := by
  refine .get ?_
  have hfail : ∀ cause, Outcome (fun decl t => J t ∧ MemberDecl.Named P decl) I (failAt cause) s :=
    fun cause => (inv.failAt (Q := fun _ => False) cause s hs).mono (fun _ _ h => h.2.elim) fun _ h => h
  split
  · exact inv.event hs head
  · exact inv.otherMember hs head
  · exact inv.otherMember hs head
  · exact inv.otherMember hs head
  · exact hfail _
  · exact hfail _
  · refine .ite (fun _ => inv.otherMember hs head) fun _ => ?_
    refine (inv.type s hs).bind fun type t htype ht => .peek ?_
    split
    · exact inv.otherMember ht.1 head
    · exact inv.otherMember ht.1 head
    · exact inv.memberNamed ht.1 (fun name u => accessors type t name u htype) head type
    · exact .get <| .throw ht.1

end MemberInvariant

end Graft.Parser
