/-
Module: Graft.Proofs.Parser.Founded
Purpose: Errors about literals are made by literals of the source.
Main exports: ParserState.Founded, Parser.Founded, Parser.Founded.fix, Parser.Founded.expr,
  Parser.Founded.sourceFile, SourceFile.founded_ofText

Most errors say which token stands where another one was expected.  Those about the value of a literal come
from a single production, which looks at one token.  No other production changes them or makes up one of its
own, so that they are found again in the errors of the whole source.
-/
import Graft.Parser.File

namespace Graft

open Graft.Parser (literalValue?)

/-- The cause is about the value of a literal. -/
def ParseCause.isAboutLiteral : ParseCause → Bool
  | invalidEscape _ | outOfRange _ => true
  | _ => false

/-- An error about the value of a literal is the one that some of the tokens makes. -/
def ParseError.Founded (tokens : List Token) (e : ParseError) : Prop :=
  e.cause.isAboutLiteral = true → ∃ t ∈ tokens, literalValue? t = .error e

variable {tokens : List Token}

theorem ParseError.founded_of_plain {e : ParseError} (h : e.cause.isAboutLiteral = false) :
    e.Founded tokens :=
  fun habout => absurd (habout.symm.trans h) (by decide)

/-! ### States -/

/-- What is left to read is among the tokens, and so are the literals of all errors that were reported. -/
structure ParserState.Founded (tokens : List Token) (s : ParserState) : Prop where
  unread : ∀ t ∈ s.unread, t ∈ tokens
  errors : ∀ e ∈ s.errors, e.Founded tokens

namespace ParserState

theorem unexpected_founded (s : ParserState) (what : String) : (s.unexpected what).Founded tokens := by
  refine ParseError.founded_of_plain ?_
  unfold ParserState.unexpected
  dsimp only
  split <;> rfl

namespace Founded

variable {s start : ParserState} (h : s.Founded tokens)
include h

theorem current : s.current.kind = .endOfFile ∨ s.current ∈ tokens := by
  unfold ParserState.current ParserState.ahead
  cases hn : s.unread[0]? with
  | none => exact .inl rfl
  | some t => exact .inr (h.unread t (List.mem_of_getElem? hn))

theorem pass (count : Nat) : (s.pass count).Founded tokens :=
  ⟨fun t ht => h.unread t (List.mem_of_mem_drop ht), h.errors⟩

theorem report {e : ParseError} (he : e.Founded tokens) : (s.report e).Founded tokens := by
  refine ⟨h.unread, fun e' he' => ?_⟩
  rcases List.mem_append.1 he' with he' | he'
  · exact h.errors e' he'
  · exact List.mem_singleton.1 he' ▸ he

theorem record {e : ParseError} (he : e.Founded tokens) : (s.record e).Founded tokens := by
  unfold ParserState.record
  split
  · exact h
  · exact { h.report he with }

theorem rewind (hstart : start.Founded tokens) : (s.rewind start).Founded tokens := ⟨hstart.unread, h.errors⟩

theorem passDistance (d : Skip.Distance) : (s.passDistance d).Founded tokens := by
  unfold ParserState.passDistance
  dsimp only
  split
  · exact (h.pass d.count).record (ParseError.founded_of_plain rfl)
  · exact h.pass d.count

theorem skipGroup : s.skipGroup.Founded tokens := by
  unfold ParserState.skipGroup
  split
  · exact h.pass _
  · exact h.passDistance _

theorem skipUntil (terminators : List TokenKind) : (s.skipUntil terminators).Founded tokens :=
  h.passDistance _

theorem synchronize : s.synchronize.Founded tokens :=
  passDistance (s := { s with panicking := false }) ⟨h.unread, h.errors⟩ _

end Founded

end ParserState

/-! ### Runs -/

namespace Parser

variable {α β ι : Type} {p q : Parser α} {f : α → Parser β}

/-- From founded states a parser comes to founded states, and the error that it may
end with is founded too. -/
def Founded (tokens : List Token) (p : Parser α) : Prop := ∀ s, s.Founded tokens →
  match p s with
  | .ok _ t => t.Founded tokens
  | .error e t => t.Founded tokens ∧ e.Founded tokens

namespace Founded

theorem pure {a : α} : Founded tokens (Pure.pure a) := fun _ hs => hs

theorem throw {e : ParseError} (he : e.Founded tokens) : Founded tokens (MonadExcept.throw e : Parser α) :=
  fun _ hs => ⟨hs, he⟩

theorem bind (hp : Founded tokens p) (hf : ∀ a, Founded tokens (f a)) : Founded tokens (p >>= f) := by
  intro s hs
  have h := hp s hs
  change match EStateM.bind p f s with
    | .ok _ t => t.Founded tokens
    | .error e t => t.Founded tokens ∧ e.Founded tokens
  unfold EStateM.bind
  cases hrun : p s with
  | ok a t =>
      rw [hrun] at h
      exact hf a t h
  | error e t =>
      rw [hrun] at h
      exact h

theorem map {g : α → β} (hp : Founded tokens p) : Founded tokens (g <$> p) :=
  (hp.bind fun _ => pure : Founded tokens (p >>= fun a => Pure.pure (g a)))

theorem ite {c : Prop} [Decidable c] (hp : Founded tokens p) (hq : Founded tokens q) :
    Founded tokens (if c then p else q) := by
  split
  · exact hp
  · exact hq

/-- What comes after a look at the state may rely on what is known of it. -/
theorem get {f : ParserState → Parser α} (hf : ∀ s, s.Founded tokens → Founded tokens (f s)) :
    Founded tokens (MonadState.get >>= f) := fun s hs => hf s hs s hs

theorem modify {g : ParserState → ParserState} (hg : ∀ s, s.Founded tokens → (g s).Founded tokens) :
    Founded tokens (modify g : Parser PUnit) := fun s hs => hg s hs

theorem tryCatch {handle : ParseError → Parser α} (hp : Founded tokens p)
    (hhandle : ∀ e, e.Founded tokens → Founded tokens (handle e)) :
    Founded tokens (MonadExcept.tryCatch p handle) := by
  intro s hs
  have h := hp s hs
  change match EStateM.tryCatch p handle s with
    | .ok _ t => t.Founded tokens
    | .error e t => t.Founded tokens ∧ e.Founded tokens
  unfold EStateM.tryCatch
  dsimp only
  cases hrun : p s with
  | ok a t =>
      rw [hrun] at h
      exact h
  | error e t =>
      rw [hrun] at h
      exact hhandle e h.2 t h.1

/-! ### Single tokens -/

theorem peek : Founded tokens peek := get fun _ _ => pure

/-- The next token, unless the source has ended, is one of the tokens. -/
theorem next {f : Token → Parser α} (hf : ∀ t, t.kind = .endOfFile ∨ t ∈ tokens → Founded tokens (f t)) :
    Founded tokens (Parser.peek >>= f) := fun s hs => hf s.current hs.current s hs

theorem kindAhead (n : Nat) : Founded tokens (kindAhead n) := get fun _ _ => pure

theorem check (kind : TokenKind) : Founded tokens (check kind) := get fun _ _ => pure

theorem atEnd : Founded tokens atEnd := get fun _ _ => pure

theorem advance : Founded tokens advance :=
  bind peek fun _ => bind (modify fun _ hs => hs.pass 1) fun _ => pure

theorem eat? (kind : TokenKind) :
    Founded tokens (eat? kind) := bind (check kind) fun _ => ite (map advance) pure

theorem eat (kind : TokenKind) : Founded tokens (eat kind) := bind (eat? kind) fun _ => pure

theorem expect (kind : TokenKind) : Founded tokens (expect kind) := by
  refine bind (eat? kind) fun token? => ?_
  cases token? with
  | none => exact get fun s _ => throw (s.unexpected_founded _)
  | some _ => exact pure

theorem eatWord? (word : String) : Founded tokens (eatWord? word) := get fun _ _ => ite (map advance) pure

theorem spanFrom (start : Span) : Founded tokens (spanFrom start) := get fun _ _ => pure

theorem failExpecting (what : String) : Founded tokens (failExpecting what : Parser α) :=
  get fun s _ => throw (s.unexpected_founded what)

theorem failAt {cause : String → ParseCause} (h : ∀ lexeme, (cause lexeme).isAboutLiteral = false) :
    Founded tokens (failAt cause : Parser α) :=
  bind peek fun _ => throw (ParseError.founded_of_plain (h _))

theorem whenever {test : Parser Bool} (htest : Founded tokens test) (hp : Founded tokens p) :
    Founded tokens (whenever test p) := bind htest fun _ => ite (map hp) pure

theorem skipGroup : Founded tokens skipGroup := modify fun _ hs => hs.skipGroup

theorem skipUntil (terminators : List TokenKind) : Founded tokens (skipUntil terminators) :=
  modify fun _ hs => hs.skipUntil terminators

theorem recovering {fallback : α} (hp : Founded tokens p) : Founded tokens (recovering fallback p) :=
  tryCatch hp fun _ he => bind (modify fun _ hs => (hs.record he).synchronize) fun _ => pure

theorem attempt (hp : Founded tokens p) : Founded tokens (attempt p) := tryCatch (map hp) fun _ _ => pure

/-! ### Recursion -/

/-- A production that occurs inside itself is founded if it is so whenever the inner one is. -/
theorem fix {step : (ι → Parser α) → ι → Parser α}
    (hstep : ∀ inner, (∀ i, Founded tokens (inner i)) → ∀ i, Founded tokens (step inner i)) (i : ι) :
    Founded tokens (Parser.fix step i) := by
  have hunfold : ∀ rounds i, Founded tokens (unfold step rounds i) := by
    intro rounds
    induction rounds with
    | zero => exact fun _ => bind peek fun _ => throw (ParseError.founded_of_plain rfl)
    | succ rounds ih => exact fun i => hstep _ ih i
  exact fun s hs => hunfold (s.unread.length + 1) i s hs

theorem many {item : Parser (Option α)} (hitem : Founded tokens item) : Founded tokens (many item) := by
  refine fix (fun rest hrest _ => bind hitem fun value? => ?_) ()
  cases value? with
  | none => exact pure
  | some _ => exact bind (hrest ()) fun _ => pure

theorem separated (hp : Founded tokens p) : Founded tokens (separated p) :=
  fix (fun _ hrest _ => bind hp fun _ => bind (eat .comma) fun _ => ite (bind (hrest ()) fun _ => pure) pure)
    ()

/-! ### Types -/

theorem ident : Founded tokens ident :=
  bind peek fun _ => ite (bind (failAt fun _ => rfl) fun _ => bind advance fun _ => pure)
    (bind advance fun _ => pure)

theorem commas : Founded tokens commas := bind (many (eat? .comma)) fun _ => pure

theorem typeSuffix (start : Span) : Founded tokens (typeSuffix start) := by
  refine get fun _ _ => ite ?_ (ite ?_ (ite ?_ pure))
  · exact bind advance fun _ => bind (spanFrom start) fun _ => pure
  · exact bind advance fun _ => bind (spanFrom start) fun _ => pure
  · exact bind advance fun _ => bind commas fun _ => bind (expect _) fun _ =>
      bind (spanFrom start) fun _ => pure

section

variable {type : Parser TypeSyntax} (htype : Founded tokens type)
include htype

theorem typeArgs : Founded tokens (typeArgs type) := by
  refine bind (expect _) fun _ => bind (check _) fun _ => bind (check _) fun _ => ite ?_ ?_
  · exact bind commas fun _ => bind (expect _) fun _ => pure
  · exact bind (separated htype) fun _ => bind (expect _) fun _ => pure

theorem typeSegment (withArgs : Bool) : Founded tokens (typeSegment type withArgs) :=
  bind ident fun _ => bind (check _) fun _ =>
    ite (bind (typeArgs htype) fun _ => pure) (bind pure fun _ => pure)

theorem namedTypeOf (withArgs : Bool) : Founded tokens (namedTypeOf type withArgs) := by
  refine bind peek fun _ => bind (check _) fun _ => bind (kindAhead 1) fun _ => ?_
  extract_lets rest
  have hrest : ∀ qualifier?, Founded tokens (rest qualifier?) := fun _ =>
    bind (typeSegment htype withArgs) fun _ =>
      bind (many (bind (check _) fun _ => bind (kindAhead 1) fun _ =>
      ite (bind advance fun _ => map (typeSegment htype withArgs)) pure)) fun _ =>
        bind (spanFrom _) fun _ => pure
  exact ite (bind ident fun _ => bind advance fun _ => bind pure hrest) (bind pure hrest)

theorem tupleType : Founded tokens (tupleType type) :=
  bind (expect _) fun _ =>
    bind (separated (bind htype fun _ => bind (whenever (check _) ident) fun _ => pure))
    fun _ => bind (expect _) fun _ => bind (spanFrom _) fun _ => pure

theorem baseType : Founded tokens (baseType type) := by
  refine bind peek fun _ => ?_
  split
  · exact bind advance fun _ => pure
  · exact tupleType htype
  · exact map (namedTypeOf htype true)
  · exact failAt fun _ => rfl

theorem typeOf : Founded tokens (typeOf type) :=
  bind (baseType htype) fun _ => bind (many (typeSuffix _)) fun _ => pure

end

theorem type : Founded tokens type := fix (fun _ hinner _ => typeOf (hinner ())) ()

theorem namedType (withArgs : Bool) : Founded tokens (namedType withArgs) := namedTypeOf type withArgs

theorem typeParam : Founded tokens typeParam :=
  bind (many (whenever (check _) skipGroup)) fun _ => bind peek fun _ =>
    ite (bind advance fun _ => ident) ident

theorem typeParams : Founded tokens typeParams :=
  bind (eat _) fun _ => ite (bind (separated typeParam) fun _ => bind (expect _) fun _ => pure) pure

/-! ### Expressions -/

/-- The end of a source is no literal. -/
theorem literalValue?_endOfFile {t : Token} (h : t.kind = .endOfFile) : literalValue? t = .ok none := by
  unfold literalValue?
  rw [h]

/-- An error about a literal is that of the token that comes next. -/
theorem literal : Founded tokens literal := by
  refine next fun t ht => ?_
  split
  · rename_i e hvalue
    have hmem : t ∈ tokens := ht.resolve_left fun hend => by
      rw [literalValue?_endOfFile hend] at hvalue
      cases hvalue
    have he : e.Founded tokens := fun _ => ⟨t, hmem, hvalue⟩
    exact bind (modify fun _ hs => (hs.report he).pass 1) fun _ => throw he
  · exact failExpecting _
  · exact bind advance fun _ => pure

section

variable {additive : Parser Expr} (hadditive : Founded tokens additive)
include hadditive

theorem primary : Founded tokens (primary additive) := by
  refine bind peek fun _ => ite ?_ (get fun _ _ => ite ?_ (ite (map (namedType false)) literal))
  · exact bind advance fun _ => bind hadditive fun _ => bind (expect _) fun _ =>
      bind (spanFrom _) fun _ => pure
  · exact bind advance fun _ => bind advance fun _ => bind (namedType true) fun _ => bind (expect _) fun _ =>
      bind (spanFrom _) fun _ => pure

theorem unary : Founded tokens (unary additive) :=
  bind (many (eat? _)) fun _ => bind (primary hadditive) fun _ => pure

theorem additiveOf : Founded tokens (additiveOf additive) :=
  bind (unary hadditive) fun _ => bind (many (whenever (eat _) (unary hadditive))) fun _ => pure

end

theorem additive : Founded tokens additive := fix (fun _ hinner _ => additiveOf (hinner ())) ()

theorem expr (terminators : List TokenKind) : Founded tokens (expr terminators) := by
  refine get fun start hstart => bind (attempt additive) fun constant? => ?_
  extract_lets rest
  have hrest : ∀ u, Founded tokens (rest u) := fun _ =>
    bind (modify fun _ hs => hs.rewind hstart) fun _ => bind (skipUntil terminators) fun _ => get fun s _ =>
      ite (bind (modify fun _ hs => hs.report (s.unexpected_founded _)) fun _ => pure) pure
  cases constant? with
  | none => exact hrest ()
  | some _ => exact bind peek fun _ => ite pure (hrest ())

/-! ### Attributes and modifiers -/

theorem nameToken : Founded tokens nameToken := bind advance fun _ => pure

theorem argument : Founded tokens argument := by
  refine get fun s _ => ?_
  extract_lets start separator rest
  have hrest : ∀ role, Founded tokens (rest role) :=
    fun _ => bind (expr _) fun _ => bind (spanFrom _) fun _ => pure
  exact ite (bind nameToken fun _ => bind advance fun _ => bind pure hrest) (bind pure hrest)

theorem arguments : Founded tokens arguments := by
  refine fix (fun _ hrest _ => ?_) ()
  refine bind (check _) fun _ => bind atEnd fun _ =>
    ite pure (bind argument fun _ => bind (eat _) fun _ => ite ?_ pure)
  exact bind (hrest ()) fun _ => pure

theorem attributeItem : Founded tokens attributeItem := by
  refine bind peek fun _ => bind (namedType true) fun _ => bind (eat _) fun _ => ?_
  extract_lets rest
  have hrest : ∀ list, Founded tokens (rest list) := fun _ => bind (spanFrom _) fun _ => pure
  exact ite (bind arguments fun _ => bind (expect _) fun _ => bind pure hrest) (bind pure hrest)

theorem attributeList : Founded tokens attributeList := by
  refine bind (expect _) fun _ => get fun _ _ => ?_
  extract_lets rest
  have hrest : ∀ target?, Founded tokens (rest target?) := fun _ =>
    bind attributeItem fun _ => bind (many (bind (eat _) fun _ => ite (bind (check _) fun _ =>
      ite pure (map attributeItem)) pure)) fun _ => bind (expect _) fun _ => bind (spanFrom _) fun _ => pure
  exact ite (bind nameToken fun _ => bind advance fun _ => bind pure hrest) (bind pure hrest)

theorem attributeLists : Founded tokens attributeLists := many (whenever (check _) attributeList)

theorem modifiers : Founded tokens modifiers :=
  bind (many (whenever (get fun _ _ => pure) advance)) fun _ => pure

/-! ### Members -/

theorem memberHead : Founded tokens memberHead :=
  bind peek fun _ => bind attributeLists fun _ => bind modifiers fun _ => pure

theorem skipBody : Founded tokens skipBody := by
  refine bind peek fun _ => ?_
  extract_lets kind rest
  have hrest : ∀ u, Founded tokens (rest u) := fun _ => bind (expect _) fun _ => pure
  exact ite skipGroup (ite (bind advance fun _ => bind (skipUntil _) hrest) (hrest ()))

theorem skipToBody : Founded tokens skipToBody := skipUntil _

theorem otherMember (head : MemberHead) : Founded tokens (otherMember head) :=
  bind skipToBody fun _ => bind skipBody fun _ => bind (spanFrom _) fun _ => pure

theorem method (head : MemberHead) (type : TypeSyntax) (name : NamedType) :
    Founded tokens (method head type name) :=
  bind skipGroup fun _ => bind skipToBody fun _ => bind skipBody fun _ => bind (spanFrom _) fun _ => pure

theorem arrowBody : Founded tokens arrowBody :=
  bind advance fun _ => bind (skipUntil _) fun _ => bind (spanFrom _) fun _ => bind (expect _) fun _ => pure

theorem accessorBody : Founded tokens accessorBody := by
  refine bind peek fun _ => ite ?_ (ite (map arrowBody) (bind (expect _) fun _ => pure))
  exact bind skipGroup fun _ => bind (spanFrom _) fun _ => pure

theorem accessor : Founded tokens accessor := by
  refine bind memberHead fun _ => bind ident fun _ => ?_
  split
  · exact throw (ParseError.founded_of_plain rfl)
  · exact bind accessorBody fun _ => bind (spanFrom _) fun _ => pure

theorem accessors : Founded tokens accessors :=
  bind (expect _) fun _ => many (bind (eat _) fun _ => ite pure (map accessor))

theorem property (head : MemberHead) (type : TypeSyntax) (name : NamedType) :
    Founded tokens (property head type name) := by
  refine bind (check _) fun _ => ?_
  extract_lets rest
  have hrest : ∀ body, Founded tokens (rest body) := fun _ => bind (spanFrom _) fun _ => pure
  refine ite (bind arrowBody fun _ => bind pure hrest)
    (bind accessors fun _ => bind (eat _) fun _ => ite ?_ ?_)
  · exact bind (expr _) fun _ => bind (expect _) fun _ => bind pure hrest
  · exact bind pure hrest

theorem initializer? : Founded tokens initializer? := whenever (eat _) (expr _)

theorem variableAfter (name : Ident) : Founded tokens (variableAfter name) :=
  bind initializer? fun _ => bind (spanFrom _) fun _ => pure

theorem field (head : MemberHead) (type : TypeSyntax) (name : NamedType) :
    Founded tokens (field head type name) :=
  bind (variableAfter _) fun _ => bind (many (whenever (eat _) (bind ident fun _ => variableAfter _)))
    fun _ => bind (expect _) fun _ => bind (spanFrom _) fun _ => pure

theorem event (head : MemberHead) : Founded tokens (event head) := by
  refine bind (expect _) fun _ => bind type fun _ => bind (namedType false) fun _ => ?_
  extract_lets first rest
  have hrest : ∀ more, Founded tokens (rest more) := fun _ => bind (spanFrom _) fun _ => pure
  refine bind (check _) fun _ => ite (bind skipGroup fun _ => bind pure hrest)
    (bind initializer? fun _ => ?_)
  exact bind (many (whenever (eat _) (bind ident fun _ => bind initializer? fun _ => pure))) fun _ =>
    bind (expect _) fun _ => bind pure hrest

theorem memberNamed (head : MemberHead) (type : TypeSyntax) : Founded tokens (memberNamed head type) := by
  refine bind (namedType true) fun name => bind (check _) fun _ => bind (kindAhead 1) fun _ =>
    ite (otherMember head) (bind peek fun _ => ?_)
  split
  · exact method head type name
  · exact property head type name
  · exact property head type name
  · exact field head type name
  · exact field head type name
  · exact field head type name
  · exact failAt fun _ => rfl

theorem memberAfter (typeName : String) (head : MemberHead) :
    Founded tokens (memberAfter typeName head) := by
  refine get fun _ _ => ?_
  split
  · exact event head
  · exact otherMember head
  · exact otherMember head
  · exact otherMember head
  · exact failAt fun _ => rfl
  · exact failAt fun _ => rfl
  · refine ite (otherMember head) (bind type fun type => bind peek fun _ => ?_)
    split
    · exact otherMember head
    · exact otherMember head
    · exact memberNamed head type
    · exact failExpecting _

/-! ### Declarations -/

theorem newDeclId : Founded tokens newDeclId :=
  get fun _ hs => bind (fun _ _ => ⟨hs.unread, hs.errors⟩) fun _ => pure

theorem typeKind : Founded tokens typeKind := by
  refine bind advance fun _ => ?_
  split
  · exact pure
  · exact pure
  · exact pure
  · exact pure
  · exact bind (eat _) fun _ => ite pure (bind (eat _) fun _ => pure)

theorem closingBrace : Founded tokens closingBrace :=
  bind (eat _) fun _ => ite (modify fun s hs => hs.report (s.unexpected_founded _)) pure

theorem skipBases : Founded tokens skipBases := by
  refine bind (check _) fun _ => ?_
  extract_lets rest
  have hrest : ∀ u, Founded tokens (rest u) :=
    fun _ => bind (check _) fun _ => get fun _ _ => ite (skipUntil _) pure
  exact ite (bind skipGroup hrest) (hrest ())

section

variable {typeDecl : MemberHead → Parser TypeDecl} (htypeDecl : ∀ head, Founded tokens (typeDecl head))
include htypeDecl

theorem member (typeName : String) : Founded tokens (member typeDecl typeName) :=
  bind memberHead fun head => get fun _ _ => ite (map (htypeDecl head)) (memberAfter typeName head)

theorem typeBody (typeName : String) : Founded tokens (typeBody typeDecl typeName) := by
  refine bind (many ?_) fun _ => pure
  exact bind atEnd fun _ => bind (check _) fun _ => ite pure (bind (eat _) fun _ => ite pure
    (map (recovering (map (member htypeDecl typeName)))))

theorem typeMembers (kind : TypeKind) (typeName : String) :
    Founded tokens (typeMembers typeDecl kind typeName) := by
  refine bind (eat _) fun _ => ite pure (bind (expect _) fun _ => ?_)
  extract_lets rest
  have hrest : ∀ members, Founded tokens (rest members) := fun _ =>
    bind closingBrace fun _ => bind (eat _) fun _ => pure
  exact ite (bind (skipUntil _) fun _ => bind pure hrest) (bind (typeBody htypeDecl typeName) hrest)

theorem typeDeclOf (head : MemberHead) : Founded tokens (typeDeclOf typeDecl head) :=
  bind newDeclId fun _ => bind typeKind fun kind => bind ident fun _ => bind typeParams fun _ =>
    bind skipBases fun _ =>
    bind (typeMembers htypeDecl kind _) fun _ => bind (spanFrom _) fun _ => pure

end

theorem typeDecl (head : MemberHead) : Founded tokens (typeDecl head) := fix (fun _ => typeDeclOf) head

theorem namespaceType : Founded tokens namespaceType := by
  refine bind memberHead fun head => get fun _ _ => ite (map (typeDecl head)) (ite ?_ (failAt fun _ => rfl))
  exact bind (skipUntil _) fun _ => bind (expect _) fun _ => pure

/-! ### Sources -/

theorem usingKind : Founded tokens usingKind :=
  get fun _ _ => ite (bind advance fun _ => pure) (ite (bind ident fun _ => bind advance fun _ => pure) pure)

theorem usingDirective : Founded tokens usingDirective :=
  bind peek fun _ => bind (eatWord? _) fun _ => bind (expect _) fun _ => bind usingKind fun _ =>
    bind type fun _ =>
    bind (expect _) fun _ => bind (spanFrom _) fun _ => pure

section

variable {space : Parser NamespaceDecl} (hspace : Founded tokens space)
include hspace

theorem namespaceItem : Founded tokens (namespaceItem space) := by
  refine get fun _ _ => ite ?_ (ite ?_ (ite ?_ (ite ?_ ?_)))
  · exact bind usingDirective fun _ => pure
  · exact bind attributeList fun _ => pure
  · exact bind hspace fun _ => pure
  · exact bind advance fun _ => throw (ParseError.founded_of_plain rfl)
  · exact bind namespaceType fun _ => pure

theorem namespaceBody (braced : Bool) : Founded tokens (namespaceBody space braced) := by
  refine bind (many ?_) fun _ => pure
  exact bind atEnd fun _ => bind (check _) fun _ => ite pure (map (recovering (namespaceItem hspace)))

theorem namespaceDeclOf : Founded tokens (namespaceDeclOf space) := by
  refine bind (expect _) fun _ => bind ident fun _ => bind (many (whenever (eat _) ident)) fun _ =>
    bind (eat _) fun _ => ?_
  extract_lets rest
  have hrest : ∀ body, Founded tokens (rest body) := fun _ => bind (spanFrom _) fun _ => pure
  refine ite (bind (namespaceBody hspace false) hrest) (bind (expect _) fun _ => ?_)
  exact bind (namespaceBody hspace true) fun _ => bind closingBrace fun _ => bind (eat _) fun _ =>
    bind pure hrest

end

theorem namespaceDecl : Founded tokens namespaceDecl :=
  fix (fun _ hinner _ => namespaceDeclOf (hinner ())) ()

theorem sourceFile :
    Founded tokens sourceFile := get fun _ _ => bind (namespaceBody namespaceDecl false) fun _ => pure

end Founded

end Parser

/-- An error of a source about the value of a literal is the one that this literal makes. -/
theorem SourceFile.founded_ofText (source : SourceId) (text : String) :
    ∀ e ∈ (ofText source text).2, e.Founded (TokenStream.ofText text).tokens := by
  have hstart : (ParserState.ofText source text).Founded (TokenStream.ofText text).tokens := by
    refine ⟨fun _ ht => ht, fun e he => ?_⟩
    obtain ⟨_, _, rfl⟩ := List.mem_map.1 he
    exact ParseError.founded_of_plain rfl
  have hrun := Parser.Founded.sourceFile _ hstart
  unfold ofText EStateM.run
  cases hresult : Parser.sourceFile (.ofText source text) with
  | ok _ s =>
      rw [hresult] at hrun
      exact hrun.errors
  | error e s =>
      rw [hresult] at hrun
      intro e' he'
      rcases List.mem_append.1 he' with he' | he'
      · exact hrun.1.errors e' he'
      · exact List.mem_singleton.1 he' ▸ hrun.2

end Graft
