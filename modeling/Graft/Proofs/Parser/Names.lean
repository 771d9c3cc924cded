/-
Module: Graft.Proofs.Parser.Names
Purpose: Where the names in declarations and in types come from.
Main exports: Parser.NumberingInvariant.sourceFile, SourceFile.allNamed_of_parse, TypeSyntax.formed_of_type
-/
import Graft.Proofs.Parser.Productions
import Graft.Proofs.Token.Word

namespace Graft

namespace Parser

variable {P : Ident → Prop}

namespace Invariant

variable {I : ParserState → Prop} {good : Token → Prop} (inv : Invariant I good)
include inv

theorem accessors : Keeps I accessors :=
  .bind (inv.expect .leftBrace) fun _ _ => .keeps_many <|
    .bind (inv.eat .rightBrace) fun _ _ => .ite (fun _ => .pure trivial) fun _ =>
      .map (MemberInvariant.accessor inv.body) fun _ _ => trivial

theorem memberAfter (typeName : String) (head : MemberHead) :
    Yields I (MemberDecl.Named P) (memberAfter typeName head) := fun _ hs =>
  inv.body.member.memberAfter hs (fun _ _ _ u _ _ _ hu => (inv.accessors u hu).mono (fun _ _ h => h.1)
    fun _ h => h) typeName head

/-! ### Declarations -/

theorem typeKind : Keeps I typeKind := fun s hs =>
  (inv.body.typeKind ((inv.advance s hs).mono (fun _ _ h => h.1) fun _ h => h)).mono
    (fun _ _ h => ⟨h, trivial⟩) fun _ h => h

theorem closingBrace : Keeps I closingBrace :=
  .bind (inv.eat .rightBrace) fun _ _ => .ite (fun _ => .modify fun _ => inv.report _)
    fun _ => .pure trivial

section

variable {typeDecl : MemberHead → Parser TypeDecl}
  (htypeDecl : ∀ head, Yields I (TypeDeclOf.Named (IsNameOf good)) (typeDecl head))
include htypeDecl

theorem member (typeName : String) :
    Yields I (MemberDecl.Named (IsNameOf good)) (member typeDecl typeName) :=
  .bind inv.body.memberHead fun head _ => .bind .get fun _ _ => .ite
    (fun _ => .map (htypeDecl head) fun _ h => h) fun _ => inv.memberAfter typeName head

theorem typeBody (typeName : String) :
    Yields I (MemberDecl.AllNamed (IsNameOf good)) (typeBody typeDecl typeName) := by
  refine .bind (.many (Q := fun m? => ∀ m ∈ m?, MemberDecl.Named (IsNameOf good) m) ?_)
    fun members hmembers => .pure ?_
  · refine .bind .atEnd fun _ _ => .bind (.check _) fun _ _ => .ite (fun _ => .pure (by simp))
      fun _ => .bind (inv.eat .semicolon) fun _ _ => .ite (fun _ => .pure (by simp)) fun _ => ?_
    refine .map (Q := fun m? => ∀ m ∈ m?, MemberDecl.Named (IsNameOf good) m)
      (inv.recovering (by simp) (.map (inv.member htypeDecl typeName) fun m hm => ?_)) ?_
    · simpa using hm
    · intro m? hm m?' hm'
      cases hm'
      exact hm
  · rw [MemberDecl.allNamed_iff]
    intro m hm
    obtain ⟨m?, hm?, rfl⟩ := List.mem_filterMap.1 hm
    exact hmembers _ hm? m rfl

theorem typeMembers (kind : TypeKind) (typeName : String) :
    Yields I (MemberDecl.AllNamed (IsNameOf good)) (typeMembers typeDecl kind typeName) := by
  refine .bind (inv.eat .semicolon) fun _ _ => .ite (fun _ => .pure trivial) fun _ =>
    .bind (inv.expect .leftBrace) fun _ _ => ?_
  extract_lets rest
  have hrest : ∀ members, MemberDecl.AllNamed (IsNameOf good) members →
      Yields I (MemberDecl.AllNamed (IsNameOf good)) (rest members) := fun members hmembers =>
    .bind inv.closingBrace fun _ _ => .bind (inv.eat .semicolon) fun _ _ => .pure hmembers
  refine .ite (fun _ => ?_) fun _ => ?_
  · exact .bind (inv.body.skipUntil _) fun _ _ => .bind
      (Q := fun members => MemberDecl.AllNamed (IsNameOf good) members) (.pure trivial) hrest
  · exact .bind (inv.typeBody htypeDecl typeName) hrest

end

theorem usingKind : Keeps I usingKind := by
  refine .bind .get fun _ _ => .ite (fun _ => ?_) fun _ => .ite (fun _ => ?_) fun _ => .pure trivial
  · exact .bind inv.advance fun _ _ => .pure trivial
  · exact .bind inv.body.ident fun _ _ => .bind inv.advance fun _ _ => .pure trivial

theorem usingDirective : Keeps I usingDirective :=
  .bind inv.body.peek fun _ _ => .bind (inv.eatWord? _) fun _ _ => .bind (inv.expect _) fun _ _ =>
    .bind inv.usingKind fun _ _ => .bind inv.body.type fun _ _ => .bind (inv.expect _) fun _ _ =>
      .bind (.spanFrom _) fun _ _ => .pure trivial

end Invariant

namespace NumberingInvariant

variable {I : ParserState → Prop} {good : Token → Prop} (inv : NumberingInvariant I good)
include inv

theorem newDeclId : Keeps I newDeclId :=
  .bind .get fun _ hs => .bind (.set (inv.nextDecl hs)) fun _ _ => .pure trivial

theorem typeDeclOf {typeDecl : MemberHead → Parser TypeDecl}
    (htypeDecl : ∀ head, Yields I (TypeDeclOf.Named (IsNameOf good)) (typeDecl head))
    (head : MemberHead) : Yields I (TypeDeclOf.Named (IsNameOf good)) (typeDeclOf typeDecl head) := by
  refine .bind inv.newDeclId fun _ _ => .bind inv.typeKind fun kind _ => .bind inv.body.ident
    fun name hname => .bind inv.body.typeParams fun params hparams => .bind inv.body.skipBases fun _ _ =>
      .bind (inv.typeMembers htypeDecl kind name.name) fun members hmembers =>
        .bind (.spanFrom _) fun _ _ => .pure ?_
  exact ⟨hname, hparams, hmembers⟩

theorem typeDecl (head : MemberHead) :
    Yields I (TypeDeclOf.Named (IsNameOf good)) (typeDecl head) :=
  .fix (Q := fun _ => TypeDeclOf.Named (IsNameOf good))
    (fun _ hinner head => inv.typeDeclOf hinner head) head

theorem namespaceType :
    Yields I (fun decl? => ∀ decl ∈ decl?, TypeDeclOf.Named (IsNameOf good) decl) namespaceType := by
  refine .bind inv.body.memberHead fun head _ => .bind .get fun _ _ => .ite (fun _ => ?_) fun _ =>
    .ite (fun _ => ?_) fun _ => inv.body.failAt _
  · refine .map (inv.typeDecl head) fun decl hdecl => ?_
    simpa using hdecl
  · exact .bind (inv.body.skipUntil _) fun _ _ => .bind (inv.expect .semicolon) fun _ _ =>
      .pure (by simp)

section

variable {space : Parser NamespaceDecl}
  (hspace : Yields I (NamespaceDeclOf.Named (IsNameOf good)) space)
include hspace

theorem namespaceItem : Yields I
    (fun body => NamespaceMember.AllNamed (IsNameOf good) body.members) (namespaceItem space) := by
  have hnil := NamespaceMember.allNamed_nil (IsNameOf good)
  refine .bind .get fun _ _ => .ite (fun _ => ?_) fun _ => .ite (fun _ => ?_) fun _ =>
    .ite (fun _ => ?_) fun _ => .ite (fun _ => ?_) fun _ => ?_
  · exact .bind inv.usingDirective fun _ _ => .pure (by simp [NamespaceBody.empty, hnil])
  · exact .bind inv.body.attributeList fun _ _ => .pure (by simp [NamespaceBody.empty, hnil])
  · exact .bind hspace fun _ hdecl => .pure (by simpa [NamespaceMember.AllNamed] using hdecl)
  · exact .bind inv.advance fun _ _ => .throw
  · refine .bind inv.namespaceType fun decl? hdecl => .pure ?_
    cases decl? with
    | none => simp [hnil]
    | some decl => simpa [NamespaceMember.AllNamed] using hdecl

theorem namespaceBody (braced : Bool) : Yields I
    (fun body => NamespaceMember.AllNamed (IsNameOf good) body.members)
    (namespaceBody space braced) := by
  refine .bind (.many (Q := fun body => NamespaceMember.AllNamed (IsNameOf good) body.members) ?_)
    fun parts hparts => .pure ?_
  · refine .bind .atEnd fun _ _ => .bind (.check _) fun _ _ => .ite (fun _ => .pure (by simp)) fun _ =>
      .map (inv.recovering (NamespaceMember.allNamed_nil _) (inv.namespaceItem hspace)) fun body hbody => ?_
    simpa using hbody
  · induction parts with
    | nil => exact NamespaceMember.allNamed_nil _
    | cons part rest ih =>
        exact NamespaceMember.allNamed_append.2 ⟨hparts part List.mem_cons_self,
          ih fun b hb => hparts b (List.mem_cons_of_mem _ hb)⟩

theorem namespaceDeclOf :
    Yields I (NamespaceDeclOf.Named (IsNameOf good)) (namespaceDeclOf space) := by
  refine .bind (inv.expect _) fun _ _ => .bind inv.body.ident fun first hfirst =>
    .bind (.many (Yields.whenever (inv.eat .dot) inv.body.ident)) fun more hmore =>
      .bind (inv.eat .semicolon) fun _ _ => ?_
  extract_lets rest
  have hrest : ∀ body : NamespaceBody,
      NamespaceMember.AllNamed (IsNameOf good) body.members →
        Yields I (NamespaceDeclOf.Named (IsNameOf good)) (rest body) := fun body hbody =>
    .bind (.spanFrom _) fun _ _ => .pure <| by
      simpa [NamespaceDeclOf.Named, hbody, hfirst] using hmore
  refine .ite (fun _ => .bind (inv.namespaceBody hspace false) hrest) fun _ => ?_
  exact .bind (inv.expect _) fun _ _ => .bind (inv.namespaceBody hspace true) fun body hbody =>
    .bind inv.closingBrace fun _ _ => .bind (inv.eat .semicolon) fun _ _ =>
      .bind (Q := fun b : NamespaceBody => NamespaceMember.AllNamed (IsNameOf good) b.members)
        (.pure hbody) hrest

end

theorem namespaceDecl : Yields I (NamespaceDeclOf.Named (IsNameOf good)) namespaceDecl :=
  .fix (Q := fun _ => NamespaceDeclOf.Named (IsNameOf good))
    (fun _ hinner _ => inv.namespaceDeclOf (hinner ())) ()

/-- The names of what a source declares are the names of identifier tokens. -/
theorem sourceFile :
    Yields I (fun file => NamespaceMember.AllNamed (IsNameOf good) file.members) sourceFile :=
  .bind .get fun _ _ => .bind (inv.namespaceBody inv.namespaceDecl false) fun _ hbody =>
    .pure hbody

end NumberingInvariant

end Parser

/-! ### Sources -/

/-- The tokens that a parser has before it are those of a stream, up to its end. -/
def ParserState.Within (stream : TokenStream) (s : ParserState) : Prop :=
  ∀ t ∈ s.unread, t ∈ stream.tokens

/-- Whatever a parser does, it reads tokens of the stream that it started with. -/
theorem ParserState.invariant_within (stream : TokenStream) :
    Parser.NumberingInvariant (ParserState.Within stream)
      fun t => t ∈ stream.tokens ∨ t.kind = .endOfFile where
  pass _ h := fun t ht => h t (List.mem_of_mem_drop ht)
  report _ h := h
  panicking _ _ h := h
  rewind _ hstart := hstart
  nextDecl h := h
  ahead n h := by
    rename_i s
    unfold ParserState.ahead
    cases hn : s.unread[n]? with
    | none => exact .inr rfl
    | some t => exact .inl (h t (List.mem_of_getElem? hn))

/-- The name of an identifier token of a source is a word. -/
theorem Parser.IsNameOf.isWord {text : String} {i : Ident}
    (h : IsNameOf (fun t => t ∈ (TokenStream.ofText text).tokens ∨ t.kind = .endOfFile) i) :
    Text.IsWord i.name := by
  obtain ⟨t, hmem | hend, hkind, hname⟩ := h
  · rw [hname]
    exact Token.isWord_name hmem hkind
  · rw [hkind] at hend
    cases hend

/-- A type that is read from a text is formed of words and of the names of built-in types. -/
theorem TypeSyntax.formed_of_type {source : SourceId} {text : String} {type : TypeSyntax} {s : ParserState}
    (h : Parser.type (.ofText source text) = .ok type s) : type.Every (Formed Text.IsWord) := by
  have hread := ((ParserState.invariant_within (.ofText text)).body.type (.ofText source text)
    fun _ ht => ht).of_ok h
  intro part hpart
  have hpart := hread.2 part hpart
  cases part with
  | predefined keyword _ =>
      obtain ⟨t, hmem | hend, hkind, rfl⟩ := hpart
      · exact Token.lexeme_mem_predefinedTypes hmem hkind
      · rw [hkind] at hend
        cases hend
  | named name =>
      exact ⟨hpart.1, fun qualifier hqualifier => (hpart.2.1 qualifier hqualifier).isWord,
        fun segment hsegment => (hpart.2.2 segment hsegment).isWord⟩
  | array _ _ _ => exact hpart
  | nullable _ _ | pointer _ _ => trivial
  | tuple elements _ =>
      exact ⟨hpart.1, fun element helement name hname => (hpart.2 element helement name hname).isWord⟩

/-- The names of what a source declares, if it has no errors, are words. -/
theorem SourceFile.allNamed_of_parse {source : SourceId} {text : String} {file : SourceFile}
    (h : SourceFile.parse source text = .ok file) :
    NamespaceMember.AllNamed (fun i => Text.IsWord i.name) file.members := by
  have hrun := (ParserState.invariant_within (.ofText text)).sourceFile (.ofText source text)
    fun _ ht => ht
  unfold SourceFile.parse SourceFile.ofText EStateM.run at h
  cases hresult : Parser.sourceFile (.ofText source text) with
  | ok parsed s =>
      rw [hresult] at h
      have hnamed := (hrun.of_ok hresult).2
      dsimp only at h
      split at h
      · rename_i heq
        cases h
        rw [(Prod.mk.inj heq).1] at hnamed
        exact NamespaceMember.AllNamed.mono (fun _ => Parser.IsNameOf.isWord) _ hnamed
      · cases h
  | error e s =>
      rw [hresult] at h
      dsimp only at h
      split at h
      · rename_i heq
        exact absurd (Prod.mk.inj heq).2 (by simp)
      · cases h

end Graft
