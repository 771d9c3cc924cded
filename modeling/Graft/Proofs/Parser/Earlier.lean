/-
Module: Graft.Proofs.Parser.Earlier
Purpose: What was reported before does not change what is read.
Main exports: ParserState.withEarlier, Parser.Blind, Parser.Blind.fix, Parser.Blind.expr,
  Parser.Blind.sourceFile

Errors are put at the end of a list that no production looks at.  So a source is read behind an error as it
is read without one, and what is reported stands behind the error.
-/
import Graft.Parser.File

namespace Graft

namespace ParserState

variable {earlier : List ParseError} {s start : ParserState}

/-- The same state when some errors were reported before. -/
def withEarlier (earlier : List ParseError) (s : ParserState) :
    ParserState := { s with errors := earlier ++ s.errors }

theorem report_withEarlier (e : ParseError) :
    (s.withEarlier earlier).report e = (s.report e).withEarlier earlier := by
  simp only [report, withEarlier, List.append_assoc]

theorem record_withEarlier (e : ParseError) :
    (s.withEarlier earlier).record e = (s.record e).withEarlier earlier := by
  unfold record
  rw [report_withEarlier]
  change (if s.panicking = true then _ else _) = withEarlier earlier (if s.panicking = true then _ else _)
  split <;> rfl

theorem pass_withEarlier (count : Nat) :
    (s.withEarlier earlier).pass count = (s.pass count).withEarlier earlier := rfl

theorem passDistance_withEarlier (d : Skip.Distance) :
    (s.withEarlier earlier).passDistance d = (s.passDistance d).withEarlier earlier := by
  unfold passDistance
  dsimp only
  rw [pass_withEarlier]
  split
  · exact record_withEarlier _
  · rfl

theorem skipGroup_withEarlier : (s.withEarlier earlier).skipGroup = s.skipGroup.withEarlier earlier := by
  have hunread : (s.withEarlier earlier).unread = s.unread := rfl
  rw [skipGroup, skipGroup, hunread]
  cases Skip.groupLength? 0 s.unread with
  | some count => rfl
  | none => exact passDistance_withEarlier _

theorem skipUntil_withEarlier (terminators : List TokenKind) :
    (s.withEarlier earlier).skipUntil terminators = (s.skipUntil terminators).withEarlier earlier :=
  passDistance_withEarlier _

theorem synchronize_withEarlier : (s.withEarlier earlier).synchronize = s.synchronize.withEarlier earlier :=
  passDistance_withEarlier (s := { s with panicking := false }) _

end ParserState

namespace Parser

variable {α β ι : Type} {p q : Parser α} {f : α → Parser β}

/-- The same end of a run when some errors were reported before. -/
def resultWithEarlier (earlier : List ParseError) :
    EStateM.Result ParseError ParserState α → EStateM.Result ParseError ParserState α
  | .ok a t => .ok a (t.withEarlier earlier)
  | .error e t => .error e (t.withEarlier earlier)

/-- The parser does not look at what was reported before. -/
def Blind (p : Parser α) : Prop := ∀ earlier s, p (s.withEarlier earlier) = resultWithEarlier earlier (p s)

namespace Blind

theorem pure {a : α} : Blind (Pure.pure a) := fun _ _ => rfl

theorem throw {e : ParseError} : Blind (MonadExcept.throw e : Parser α) := fun _ _ => rfl

theorem bind (hp : Blind p) (hf : ∀ a, Blind (f a)) : Blind (p >>= f) := by
  intro earlier s
  change EStateM.bind p f (s.withEarlier earlier) = resultWithEarlier earlier (EStateM.bind p f s)
  unfold EStateM.bind
  rw [hp]
  cases p s with
  | ok a t => exact hf a earlier t
  | error e t => rfl

theorem map {g : α → β} (hp : Blind p) : Blind (g <$> p) :=
  (hp.bind fun _ => pure : Blind (p >>= fun a => Pure.pure (g a)))

theorem ite {c : Prop} [Decidable c] (hp : Blind p) (hq : Blind q) : Blind (if c then p else q) := by
  split
  · exact hp
  · exact hq

/-- What comes after a look at the state depends on the rest of it. -/
theorem get {f : ParserState → Parser α} (same : ∀ earlier s, f (s.withEarlier earlier) = f s)
    (hf : ∀ s, Blind (f s)) :
    Blind (MonadState.get >>= f) := by
  intro earlier s
  change f (s.withEarlier earlier) (s.withEarlier earlier) = resultWithEarlier earlier (f s s)
  rw [same]
  exact hf s earlier s

theorem modify {g : ParserState → ParserState}
    (same : ∀ earlier s, g (s.withEarlier earlier) = (g s).withEarlier earlier) :
    Blind (modify g : Parser PUnit) :=
  fun earlier s => congrArg (EStateM.Result.ok PUnit.unit) (same earlier s)

theorem tryCatch {handle : ParseError → Parser α} (hp : Blind p) (hhandle : ∀ e, Blind (handle e)) :
    Blind (MonadExcept.tryCatch p handle) := by
  intro earlier s
  change EStateM.tryCatch p handle (s.withEarlier earlier) =
    resultWithEarlier earlier (EStateM.tryCatch p handle s)
  unfold EStateM.tryCatch
  dsimp only
  rw [hp]
  cases p s with
  | ok a t => rfl
  | error e t => exact hhandle e earlier t

/-! ### Single tokens -/

theorem peek : Blind peek := get (fun _ _ => rfl) fun _ => pure

theorem kindAhead (n : Nat) : Blind (kindAhead n) := get (fun _ _ => rfl) fun _ => pure

theorem check (kind : TokenKind) : Blind (check kind) := get (fun _ _ => rfl) fun _ => pure

theorem atEnd : Blind atEnd := get (fun _ _ => rfl) fun _ => pure

theorem advance : Blind advance := bind peek fun _ => bind (modify fun _ _ => rfl) fun _ => pure

theorem eat? (kind : TokenKind) : Blind (eat? kind) := bind (check kind) fun _ => ite (map advance) pure

theorem eat (kind : TokenKind) : Blind (eat kind) := bind (eat? kind) fun _ => pure

theorem expect (kind : TokenKind) : Blind (expect kind) := by
  refine bind (eat? kind) fun token? => ?_
  cases token? with
  | none => exact get (fun _ _ => rfl) fun _ => throw
  | some _ => exact pure

theorem eatWord? (word : String) :
    Blind (eatWord? word) := get (fun _ _ => rfl) fun _ => ite (map advance) pure

theorem spanFrom (start : Span) : Blind (spanFrom start) := get (fun _ _ => rfl) fun _ => pure

theorem failExpecting (what : String) : Blind (failExpecting what : Parser α) :=
  get (fun _ _ => rfl) fun _ => throw

theorem failAt (cause : String → ParseCause) : Blind (failAt cause : Parser α) := bind peek fun _ => throw

theorem whenever {test : Parser Bool} (htest : Blind test) (hp : Blind p) : Blind (whenever test p) :=
  bind htest fun _ => ite (map hp) pure

theorem skipGroup : Blind skipGroup := modify fun _ _ => ParserState.skipGroup_withEarlier

theorem skipUntil (terminators : List TokenKind) : Blind (skipUntil terminators) :=
  modify fun _ _ => ParserState.skipUntil_withEarlier terminators

theorem recovering {fallback : α} (hp : Blind p) : Blind (recovering fallback p) := by
  refine tryCatch hp fun e => bind (modify fun earlier s => ?_) fun _ => pure
  rw [ParserState.record_withEarlier, ParserState.synchronize_withEarlier]

theorem attempt (hp : Blind p) : Blind (attempt p) := tryCatch (map hp) fun _ => pure

/-! ### Recursion -/

/-- A production that occurs inside itself is blind if it is so whenever the inner one is. -/
theorem fix {step : (ι → Parser α) → ι → Parser α}
    (hstep : ∀ inner, (∀ i, Blind (inner i)) → ∀ i, Blind (step inner i)) (i : ι) :
    Blind (Parser.fix step i) := by
  have hunfold : ∀ rounds i, Blind (unfold step rounds i) := by
    intro rounds
    induction rounds with
    | zero => exact fun _ => bind peek fun _ => throw
    | succ rounds ih => exact fun i => hstep _ ih i
  exact fun earlier s => hunfold (s.unread.length + 1) i earlier s

theorem many {item : Parser (Option α)} (hitem : Blind item) : Blind (many item) := by
  refine fix (fun rest hrest _ => bind hitem fun value? => ?_) ()
  cases value? with
  | none => exact pure
  | some _ => exact bind (hrest ()) fun _ => pure

theorem separated (hp : Blind p) : Blind (separated p) :=
  fix (fun _ hrest _ => bind hp fun _ => bind (eat .comma) fun _ => ite (bind (hrest ()) fun _ => pure) pure)
    ()

/-! ### Types -/

theorem ident : Blind ident :=
  bind peek fun _ => ite (bind (failAt _) fun _ => bind advance fun _ => pure) (bind advance fun _ => pure)

theorem commas : Blind commas := bind (many (eat? .comma)) fun _ => pure

theorem typeSuffix (start : Span) : Blind (typeSuffix start) := by
  refine get (fun _ _ => rfl) fun _ => ite ?_ (ite ?_ (ite ?_ pure))
  · exact bind advance fun _ => bind (spanFrom start) fun _ => pure
  · exact bind advance fun _ => bind (spanFrom start) fun _ => pure
  · exact bind advance fun _ => bind commas fun _ => bind (expect _) fun _ =>
      bind (spanFrom start) fun _ => pure

section

variable {type : Parser TypeSyntax} (htype : Blind type)
include htype

theorem typeArgs : Blind (typeArgs type) := by
  refine bind (expect _) fun _ => bind (check _) fun _ => bind (check _) fun _ => ite ?_ ?_
  · exact bind commas fun _ => bind (expect _) fun _ => pure
  · exact bind (separated htype) fun _ => bind (expect _) fun _ => pure

theorem typeSegment (withArgs : Bool) : Blind (typeSegment type withArgs) :=
  bind ident fun _ => bind (check _) fun _ =>
    ite (bind (typeArgs htype) fun _ => pure) (bind pure fun _ => pure)

theorem namedTypeOf (withArgs : Bool) : Blind (namedTypeOf type withArgs) := by
  refine bind peek fun _ => bind (check _) fun _ => bind (kindAhead 1) fun _ => ?_
  extract_lets rest
  have hrest : ∀ qualifier?, Blind (rest qualifier?) := fun _ =>
    bind (typeSegment htype withArgs) fun _ =>
      bind (many (bind (check _) fun _ => bind (kindAhead 1) fun _ =>
      ite (bind advance fun _ => map (typeSegment htype withArgs)) pure)) fun _ =>
        bind (spanFrom _) fun _ => pure
  exact ite (bind ident fun _ => bind advance fun _ => bind pure hrest) (bind pure hrest)

theorem tupleType : Blind (tupleType type) :=
  bind (expect _) fun _ =>
    bind (separated (bind htype fun _ => bind (whenever (check _) ident) fun _ => pure))
    fun _ => bind (expect _) fun _ => bind (spanFrom _) fun _ => pure

theorem baseType : Blind (baseType type) := by
  refine bind peek fun _ => ?_
  split
  · exact bind advance fun _ => pure
  · exact tupleType htype
  · exact map (namedTypeOf htype true)
  · exact failAt _

theorem typeOf : Blind (typeOf type) :=
  bind (baseType htype) fun _ => bind (many (typeSuffix _)) fun _ => pure

end

theorem type : Blind type := fix (fun _ hinner _ => typeOf (hinner ())) ()

theorem namedType (withArgs : Bool) : Blind (namedType withArgs) := namedTypeOf type withArgs

theorem typeParam : Blind typeParam :=
  bind (many (whenever (check _) skipGroup)) fun _ => bind peek fun _ =>
    ite (bind advance fun _ => ident) ident

theorem typeParams : Blind typeParams :=
  bind (eat _) fun _ => ite (bind (separated typeParam) fun _ => bind (expect _) fun _ => pure) pure

/-! ### Expressions -/

theorem literal : Blind literal := by
  refine bind peek fun t => ?_
  split
  · exact bind (modify fun _ _ => by rw [ParserState.report_withEarlier, ParserState.pass_withEarlier])
      fun _ => throw
  · exact failExpecting _
  · exact bind advance fun _ => pure

section

variable {additive : Parser Expr} (hadditive : Blind additive)
include hadditive

theorem primary : Blind (primary additive) := by
  refine bind peek fun _ =>
    ite ?_ (get (fun _ _ => rfl) fun _ => ite ?_ (ite (map (namedType false)) literal))
  · exact bind advance fun _ => bind hadditive fun _ => bind (expect _) fun _ =>
      bind (spanFrom _) fun _ => pure
  · exact bind advance fun _ => bind advance fun _ => bind (namedType true) fun _ => bind (expect _) fun _ =>
      bind (spanFrom _) fun _ => pure

theorem unary : Blind (unary additive) :=
  bind (many (eat? _)) fun _ => bind (primary hadditive) fun _ => pure

theorem additiveOf : Blind (additiveOf additive) :=
  bind (unary hadditive) fun _ => bind (many (whenever (eat _) (unary hadditive))) fun _ => pure

end

theorem additive : Blind additive := fix (fun _ hinner _ => additiveOf (hinner ())) ()

theorem expr (terminators : List TokenKind) : Blind (expr terminators) := by
  refine get (fun _ _ => rfl) fun start => bind (attempt additive) fun constant? => ?_
  extract_lets rest
  have hrest : ∀ u, Blind (rest u) := fun _ =>
    bind (modify fun _ _ => rfl) fun _ => bind (skipUntil terminators) fun _ => get (fun _ _ => rfl) fun _ =>
      ite (bind (modify fun _ _ => ParserState.report_withEarlier _) fun _ => pure) pure
  cases constant? with
  | none => exact hrest ()
  | some _ => exact bind peek fun _ => ite pure (hrest ())

/-! ### Attributes and modifiers -/

theorem nameToken : Blind nameToken := bind advance fun _ => pure

theorem argument : Blind argument := by
  refine get (fun _ _ => rfl) fun s => ?_
  extract_lets start separator rest
  have hrest : ∀ role, Blind (rest role) := fun _ => bind (expr _) fun _ => bind (spanFrom _) fun _ => pure
  exact ite (bind nameToken fun _ => bind advance fun _ => bind pure hrest) (bind pure hrest)

theorem arguments : Blind arguments := by
  refine fix (fun _ hrest _ => ?_) ()
  refine bind (check _) fun _ => bind atEnd fun _ =>
    ite pure (bind argument fun _ => bind (eat _) fun _ => ite ?_ pure)
  exact bind (hrest ()) fun _ => pure

theorem attributeItem : Blind attributeItem := by
  refine bind peek fun _ => bind (namedType true) fun _ => bind (eat _) fun _ => ?_
  extract_lets rest
  have hrest : ∀ list, Blind (rest list) := fun _ => bind (spanFrom _) fun _ => pure
  exact ite (bind arguments fun _ => bind (expect _) fun _ => bind pure hrest) (bind pure hrest)

theorem attributeList : Blind attributeList := by
  refine bind (expect _) fun _ => get (fun _ _ => rfl) fun _ => ?_
  extract_lets rest
  have hrest : ∀ target?, Blind (rest target?) := fun _ =>
    bind attributeItem fun _ => bind (many (bind (eat _) fun _ => ite (bind (check _) fun _ =>
      ite pure (map attributeItem)) pure)) fun _ => bind (expect _) fun _ => bind (spanFrom _) fun _ => pure
  exact ite (bind nameToken fun _ => bind advance fun _ => bind pure hrest) (bind pure hrest)

theorem attributeLists : Blind attributeLists := many (whenever (check _) attributeList)

theorem modifiers : Blind modifiers :=
  bind (many (whenever (get (fun _ _ => rfl) fun _ => pure) advance)) fun _ => pure

/-! ### Members -/

theorem memberHead : Blind memberHead :=
  bind peek fun _ => bind attributeLists fun _ => bind modifiers fun _ => pure

theorem skipBody : Blind skipBody := by
  refine bind peek fun _ => ?_
  extract_lets kind rest
  have hrest : ∀ u, Blind (rest u) := fun _ => bind (expect _) fun _ => pure
  exact ite skipGroup (ite (bind advance fun _ => bind (skipUntil _) hrest) (hrest ()))

theorem skipToBody : Blind skipToBody := skipUntil _

theorem otherMember (head : MemberHead) : Blind (otherMember head) :=
  bind skipToBody fun _ => bind skipBody fun _ => bind (spanFrom _) fun _ => pure

theorem method (head : MemberHead) (type : TypeSyntax) (name : NamedType) : Blind (method head type name) :=
  bind skipGroup fun _ => bind skipToBody fun _ => bind skipBody fun _ => bind (spanFrom _) fun _ => pure

theorem arrowBody : Blind arrowBody :=
  bind advance fun _ => bind (skipUntil _) fun _ => bind (spanFrom _) fun _ => bind (expect _) fun _ => pure

theorem accessorBody : Blind accessorBody := by
  refine bind peek fun _ => ite ?_ (ite (map arrowBody) (bind (expect _) fun _ => pure))
  exact bind skipGroup fun _ => bind (spanFrom _) fun _ => pure

theorem accessor : Blind accessor := by
  refine bind memberHead fun _ => bind ident fun _ => ?_
  split
  · exact throw
  · exact bind accessorBody fun _ => bind (spanFrom _) fun _ => pure

theorem accessors : Blind accessors :=
  bind (expect _) fun _ => many (bind (eat _) fun _ => ite pure (map accessor))

theorem property (head : MemberHead) (type : TypeSyntax) (name : NamedType) :
    Blind (property head type name) := by
  refine bind (check _) fun _ => ?_
  extract_lets rest
  have hrest : ∀ body, Blind (rest body) := fun _ => bind (spanFrom _) fun _ => pure
  refine ite (bind arrowBody fun _ => bind pure hrest)
    (bind accessors fun _ => bind (eat _) fun _ => ite ?_ ?_)
  · exact bind (expr _) fun _ => bind (expect _) fun _ => bind pure hrest
  · exact bind pure hrest

theorem initializer? : Blind initializer? := whenever (eat _) (expr _)

theorem variableAfter (name : Ident) : Blind (variableAfter name) :=
  bind initializer? fun _ => bind (spanFrom _) fun _ => pure

theorem field (head : MemberHead) (type : TypeSyntax) (name : NamedType) : Blind (field head type name) :=
  bind (variableAfter _) fun _ => bind (many (whenever (eat _) (bind ident fun _ => variableAfter _)))
    fun _ => bind (expect _) fun _ => bind (spanFrom _) fun _ => pure

theorem event (head : MemberHead) : Blind (event head) := by
  refine bind (expect _) fun _ => bind type fun _ => bind (namedType false) fun _ => ?_
  extract_lets first rest
  have hrest : ∀ more, Blind (rest more) := fun _ => bind (spanFrom _) fun _ => pure
  refine bind (check _) fun _ => ite (bind skipGroup fun _ => bind pure hrest)
    (bind initializer? fun _ => ?_)
  exact bind (many (whenever (eat _) (bind ident fun _ => bind initializer? fun _ => pure))) fun _ =>
    bind (expect _) fun _ => bind pure hrest

theorem memberNamed (head : MemberHead) (type : TypeSyntax) : Blind (memberNamed head type) := by
  refine bind (namedType true) fun name => bind (check _) fun _ => bind (kindAhead 1) fun _ =>
    ite (otherMember head) (bind peek fun _ => ?_)
  split
  · exact method head type name
  · exact property head type name
  · exact property head type name
  · exact field head type name
  · exact field head type name
  · exact field head type name
  · exact failAt _

theorem memberAfter (typeName : String) (head : MemberHead) : Blind (memberAfter typeName head) := by
  refine get (fun _ _ => rfl) fun _ => ?_
  split
  · exact event head
  · exact otherMember head
  · exact otherMember head
  · exact otherMember head
  · exact failAt _
  · exact failAt _
  · refine ite (otherMember head) (bind type fun type => bind peek fun _ => ?_)
    split
    · exact otherMember head
    · exact otherMember head
    · exact memberNamed head type
    · exact failExpecting _

/-! ### Declarations -/

theorem newDeclId : Blind newDeclId := fun _ _ => rfl

theorem typeKind : Blind typeKind := by
  refine bind advance fun _ => ?_
  split
  · exact pure
  · exact pure
  · exact pure
  · exact pure
  · exact bind (eat _) fun _ => ite pure (bind (eat _) fun _ => pure)

theorem closingBrace : Blind closingBrace :=
  bind (eat _) fun _ => ite (modify fun _ _ => ParserState.report_withEarlier _) pure

theorem skipBases : Blind skipBases := by
  refine bind (check _) fun _ => ?_
  extract_lets rest
  have hrest : ∀ u, Blind (rest u) := fun _ =>
    bind (check _) fun _ => get (fun _ _ => rfl) fun _ => ite (skipUntil _) pure
  exact ite (bind skipGroup hrest) (hrest ())

section

variable {typeDecl : MemberHead → Parser TypeDecl} (htypeDecl : ∀ head, Blind (typeDecl head))
include htypeDecl

theorem member (typeName : String) : Blind (member typeDecl typeName) :=
  bind memberHead fun head => get (fun _ _ => rfl) fun _ =>
    ite (map (htypeDecl head)) (memberAfter typeName head)

theorem typeBody (typeName : String) : Blind (typeBody typeDecl typeName) := by
  refine bind (many ?_) fun _ => pure
  exact bind atEnd fun _ => bind (check _) fun _ => ite pure (bind (eat _) fun _ => ite pure
    (map (recovering (map (member htypeDecl typeName)))))

theorem typeMembers (kind : TypeKind) (typeName : String) : Blind (typeMembers typeDecl kind typeName) := by
  refine bind (eat _) fun _ => ite pure (bind (expect _) fun _ => ?_)
  extract_lets rest
  have hrest : ∀ members, Blind (rest members) :=
    fun _ => bind closingBrace fun _ => bind (eat _) fun _ => pure
  exact ite (bind (skipUntil _) fun _ => bind pure hrest) (bind (typeBody htypeDecl typeName) hrest)

theorem typeDeclOf (head : MemberHead) : Blind (typeDeclOf typeDecl head) :=
  bind newDeclId fun _ => bind typeKind fun kind => bind ident fun _ => bind typeParams fun _ =>
    bind skipBases fun _ =>
    bind (typeMembers htypeDecl kind _) fun _ => bind (spanFrom _) fun _ => pure

end

theorem typeDecl (head : MemberHead) : Blind (typeDecl head) := fix (fun _ => typeDeclOf) head

theorem namespaceType : Blind namespaceType := by
  refine bind memberHead fun head => get (fun _ _ => rfl) fun _ =>
    ite (map (typeDecl head)) (ite ?_ (failAt _))
  exact bind (skipUntil _) fun _ => bind (expect _) fun _ => pure

/-! ### Sources -/

theorem usingKind : Blind usingKind :=
  get (fun _ _ => rfl) fun _ => ite (bind advance fun _ => pure)
    (ite (bind ident fun _ => bind advance fun _ => pure) pure)

theorem usingDirective : Blind usingDirective :=
  bind peek fun _ => bind (eatWord? _) fun _ => bind (expect _) fun _ => bind usingKind fun _ =>
    bind type fun _ =>
    bind (expect _) fun _ => bind (spanFrom _) fun _ => pure

section

variable {space : Parser NamespaceDecl} (hspace : Blind space)
include hspace

theorem namespaceItem : Blind (namespaceItem space) := by
  refine get (fun _ _ => rfl) fun _ => ite ?_ (ite ?_ (ite ?_ (ite ?_ ?_)))
  · exact bind usingDirective fun _ => pure
  · exact bind attributeList fun _ => pure
  · exact bind hspace fun _ => pure
  · exact bind advance fun _ => throw
  · exact bind namespaceType fun _ => pure

theorem namespaceBody (braced : Bool) : Blind (namespaceBody space braced) := by
  refine bind (many ?_) fun _ => pure
  exact bind atEnd fun _ => bind (check _) fun _ => ite pure (map (recovering (namespaceItem hspace)))

theorem namespaceDeclOf : Blind (namespaceDeclOf space) := by
  refine bind (expect _) fun _ => bind ident fun _ => bind (many (whenever (eat _) ident)) fun _ =>
    bind (eat _) fun _ => ?_
  extract_lets rest
  have hrest : ∀ body, Blind (rest body) := fun _ => bind (spanFrom _) fun _ => pure
  refine ite (bind (namespaceBody hspace false) hrest) (bind (expect _) fun _ => ?_)
  exact bind (namespaceBody hspace true) fun _ => bind closingBrace fun _ => bind (eat _) fun _ =>
    bind pure hrest

end

theorem namespaceDecl : Blind namespaceDecl := fix (fun _ hinner _ => namespaceDeclOf (hinner ())) ()

/-- What a whole source is read as does not depend on what was reported before. -/
theorem sourceFile : Blind sourceFile :=
  get (fun _ _ => rfl) fun _ => bind (namespaceBody namespaceDecl false) fun _ => pure

end Blind

end Parser

end Graft
