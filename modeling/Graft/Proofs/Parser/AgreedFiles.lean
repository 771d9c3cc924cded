/-
Module: Graft.Proofs.Parser.AgreedFiles
Purpose: Members, declarations and whole sources that are read without regard to places.
Main exports: Parser.Agrees.memberAfter, Parser.Agrees.typeDecl, Parser.Agrees.sourceFile,
  SourceFile.unplaced_ofText_eq

What could not be read is reported with its cause and passed as far in one run as in the other, so that
sources with the same tokens have trees and errors that differ in places only.
-/
import Graft.Parser.File
import Graft.Proofs.Parser.AgreedPhrases

namespace Graft

/-- What stands before a member, without places. -/
def MemberHead.unplaced (head : MemberHead) :
    MemberHead := ⟨head.attributes.map (·.unplaced), head.modifiers, .nowhere⟩

theorem MemberHead.of_unplaced {head head' : MemberHead} (h : head.unplaced = head'.unplaced) :
    head.attributes.map (·.unplaced) = head'.attributes.map (·.unplaced) ∧
    head.modifiers = head'.modifiers := by
  obtain ⟨hattributes, hmodifiers, -⟩ := MemberHead.mk.inj h
  exact ⟨hattributes, hmodifiers⟩

/-- What a file or a namespace holds, without places. -/
def NamespaceBody.unplaced (body : NamespaceBody) : NamespaceBody :=
  ⟨body.usings.map (·.unplaced), body.attributes.map (·.unplaced), body.members.map (·.unplaced)⟩

namespace NamespaceBody

theorem unplaced_append (a b : NamespaceBody) : (a.append b).unplaced = a.unplaced.append b.unplaced := by
  simp only [append, unplaced, List.map_append]

theorem unplaced_concat (parts : List NamespaceBody) :
    (concat parts).unplaced = concat (parts.map unplaced) := by
  induction parts with
  | nil => rfl
  | cons part rest ih =>
      rw [concat, List.foldr_cons, unplaced_append, List.map_cons]
      exact congrArg (append part.unplaced) ih

end NamespaceBody

namespace Parser

theorem isConstructor_congr {s s' : ParserState} (hs : s.Alike s') (typeName : String) :
    isConstructor typeName s = isConstructor typeName s' := by
  have hname : s.current.name = s'.current.name := Token.name_eq_of_mark (hs.ahead 0)
  rw [isConstructor, isConstructor, hs.check, hs.kind_ahead, hname]

theorem isTypeKeyword_congr {s s' : ParserState} (hs : s.Alike s') : isTypeKeyword s = isTypeKeyword s' := by
  rw [isTypeKeyword, isTypeKeyword, hs.kind_current, hs.lexeme_current, hs.kind_ahead]

theorem isUsing_congr {s s' : ParserState} (hs : s.Alike s') : isUsing s = isUsing s' := by
  rw [isUsing, isUsing, hs.check, hs.checkWord, hs.kind_ahead]

theorem isGlobalAttribute_congr {s s' : ParserState} (hs : s.Alike s') :
    isGlobalAttribute s = isGlobalAttribute s' := by
  rw [isGlobalAttribute, isGlobalAttribute, hs.check, hs.lexeme_ahead, hs.kind_ahead]

/-- Names of members are made without regard to places. -/
theorem memberName_congr {a b : NamedType} (h : EqualBy NamedType.unplaced a b) :
    EqualBy Ident.unplaced (memberName a) (memberName b) :=
  congrArg (Ident.mk · .nowhere) (like_of_unplaced h).memberName_eq

namespace Agrees

/-! ### Members -/

theorem memberHead : Agrees (EqualBy MemberHead.unplaced) Parser.memberHead Parser.memberHead := by
  refine bind peek fun _ _ _ => bind attributeLists fun _ _ hattributes =>
    bind modifiers fun _ _ hmodifiers => pure ?_
  rw [EqualBy, MemberHead.unplaced, MemberHead.unplaced, hattributes, hmodifiers]

theorem skipBody : Agrees (fun _ _ => True) Parser.skipBody Parser.skipBody := by
  refine bind peek fun t t' ht => ?_
  extract_lets kind rest kind'
  have hkind : kind = kind' := Token.kind_eq_of_mark ht
  have hrest : Agrees (fun _ _ => True) (rest ()) (rest ()) :=
    bind (expect .semicolon) fun _ _ _ => pure trivial
  refine ite (by rw [hkind]) skipGroup (ite (by rw [hkind]) ?_ hrest)
  exact bind advance fun _ _ _ => bind (skipUntil _) fun _ _ _ => hrest

theorem skipToBody : Agrees (fun _ _ => True) Parser.skipToBody Parser.skipToBody := skipUntil _

variable {head head' : MemberHead} (hhead : EqualBy MemberHead.unplaced head head')
  {memberType memberType' : TypeSyntax}
  (htype : EqualBy TypeSyntax.unplaced memberType memberType') {name name' : NamedType}
  (hname : EqualBy NamedType.unplaced name name')

theorem otherMember (head head' : MemberHead) :
    Agrees (EqualBy MemberDecl.unplaced) (Parser.otherMember head) (Parser.otherMember head') :=
  bind skipToBody fun _ _ _ => bind skipBody fun _ _ _ => bind (spanFrom _ _) fun _ _ _ => pure rfl

theorem arrowBody : Agrees (fun _ _ => True) Parser.arrowBody Parser.arrowBody :=
  bind advance fun _ _ _ => bind (skipUntil _) fun _ _ _ => bind (spanFrom _ _) fun _ _ _ =>
    bind (expect .semicolon) fun _ _ _ => pure trivial

theorem accessorBody : Agrees (EqualBy AccessorBody.unplaced) Parser.accessorBody Parser.accessorBody := by
  refine bind peek fun t t' ht => ite (by rw [Token.kind_eq_of_mark ht]) ?_
    (ite (by rw [Token.kind_eq_of_mark ht])
    (map arrowBody fun _ _ _ => rfl) (bind (expect .semicolon) fun _ _ _ => pure rfl))
  exact bind skipGroup fun _ _ _ => bind (spanFrom _ _) fun _ _ _ => pure rfl

theorem accessor : Agrees (EqualBy AccessorDecl.unplaced) Parser.accessor Parser.accessor := by
  refine bind memberHead fun head head' hhead => bind ident fun keyword keyword' hkeyword => ?_
  have hword : keyword.name = keyword'.name := (Ident.mk.inj hkeyword).1
  have hmodifiers := (MemberHead.of_unplaced hhead).2
  rw [hword]
  split
  · exact throw rfl
  · refine bind accessorBody fun _ _ hbody => bind (spanFrom _ _) fun _ _ _ => pure ?_
    rw [EqualBy, AccessorDecl.unplaced, AccessorDecl.unplaced, hbody, hmodifiers]

theorem accessors : Agrees (EqualBy (List.map AccessorDecl.unplaced)) Parser.accessors Parser.accessors := by
  refine bind (expect .leftBrace) fun _ _ _ => (many (R := EqualBy AccessorDecl.unplaced) ?_).mono
    fun _ _ => forall₂_iff_map_eq.1
  exact bind (eat .rightBrace) fun _ _ hbrace =>
    ite (by rw [hbrace]) (pure .none) (map accessor fun _ _ h => .some h)

theorem initializer? : Agrees (Option.Rel (EqualBy Expr.unplaced)) Parser.initializer? Parser.initializer? :=
  whenever (eat .equal) (expr _)

theorem variableAfter {name name' : Ident} (hname : EqualBy Ident.unplaced name name') :
    Agrees (EqualBy VariableDecl.unplaced) (Parser.variableAfter name) (Parser.variableAfter name') := by
  refine bind initializer? fun _ _ hvalue => bind (spanFrom _ _) fun _ _ _ => pure ?_
  rw [EqualBy, VariableDecl.unplaced, VariableDecl.unplaced, hname, rel_iff_map_eq.1 hvalue]

section

include hhead htype hname

theorem method : Agrees (EqualBy MemberDecl.unplaced) (Parser.method head memberType name)
    (Parser.method head' memberType' name') := by
  obtain ⟨hattributes, hmodifiers⟩ := MemberHead.of_unplaced hhead
  have hparams : (methodTypeParams name).map Ident.unplaced =
      (methodTypeParams name').map Ident.unplaced := by
    rw [← methodTypeParams_unplaced, hname, methodTypeParams_unplaced]
  refine bind skipGroup fun _ _ _ => bind skipToBody fun _ _ _ => bind skipBody fun _ _ _ =>
    bind (spanFrom _ _) fun _ _ _ => pure ?_
  rw [EqualBy, MemberDecl.unplaced, MemberDecl.unplaced, MethodDecl.unplaced, MethodDecl.unplaced,
    hattributes, hmodifiers, htype, memberName_congr hname, hparams]

theorem property : Agrees (EqualBy MemberDecl.unplaced) (Parser.property head memberType name)
    (Parser.property head' memberType' name') := by
  obtain ⟨hattributes, hmodifiers⟩ := MemberHead.of_unplaced hhead
  refine bind (check .arrow) fun _ _ harrow => ?_
  extract_lets rest rest'
  have hrest : ∀ {body body' value? value?'}, EqualBy PropertyBody.unplaced body body' →
      EqualBy (Option.map Expr.unplaced) value? value?' →
        Agrees (EqualBy MemberDecl.unplaced) (rest (body, value?)) (rest' (body', value?')) := by
    intro body body' value? value?' hbody hvalue
    refine bind (spanFrom _ _) fun _ _ _ => pure ?_
    rw [EqualBy, MemberDecl.unplaced, MemberDecl.unplaced, PropertyDecl.unplaced, PropertyDecl.unplaced,
      hattributes, hmodifiers, htype, memberName_congr hname, hbody, hvalue]
  refine ite (by rw [harrow]) ?_ ?_
  · exact bind arrowBody fun _ _ _ => hrest rfl rfl
  · refine bind accessors fun list list' hlist => bind (eat .equal) fun _ _ hequal =>
      ite (by rw [hequal]) ?_ ?_
    · exact bind (expr _) fun _ _ hvalue => bind (expect .semicolon) fun _ _ _ =>
        hrest (congrArg PropertyBody.accessors hlist) (congrArg some hvalue)
    · exact hrest (congrArg PropertyBody.accessors hlist) rfl

theorem field : Agrees (EqualBy MemberDecl.unplaced) (Parser.field head memberType name)
    (Parser.field head' memberType' name') := by
  obtain ⟨hattributes, hmodifiers⟩ := MemberHead.of_unplaced hhead
  refine bind (variableAfter (memberName_congr hname)) fun first first' hfirst =>
    bind (many (whenever (eat .comma)
    (bind ident fun _ _ hname => variableAfter hname))) fun more more' hmore =>
    bind (expect .semicolon) fun _ _ _ =>
      bind (spanFrom _ _) fun _ _ _ => pure ?_
  rw [EqualBy, MemberDecl.unplaced, MemberDecl.unplaced, FieldDecl.unplaced, FieldDecl.unplaced, hattributes,
    hmodifiers, htype, List.map_cons, List.map_cons, hfirst, forall₂_iff_map_eq.1 hmore]

end

include hhead

theorem event : Agrees (EqualBy MemberDecl.unplaced) (Parser.event head) (Parser.event head') := by
  obtain ⟨hattributes, hmodifiers⟩ := MemberHead.of_unplaced hhead
  refine bind (expect .eventKeyword) fun _ _ _ => bind type fun _ _ htype => bind (namedType false)
    fun name name' hname => ?_
  extract_lets first rest first' rest'
  have hfirst : EqualBy Ident.unplaced first first' := memberName_congr hname
  have hrest : ∀ more more', EqualBy (List.map Ident.unplaced) more more' →
      Agrees (EqualBy MemberDecl.unplaced) (rest more) (rest' more') := by
    intro more more' hmore
    refine bind (spanFrom _ _) fun _ _ _ => pure ?_
    rw [EqualBy, MemberDecl.unplaced, MemberDecl.unplaced, EventDecl.unplaced, EventDecl.unplaced,
      hattributes, hmodifiers, htype, List.map_cons, List.map_cons, hfirst, hmore]
  refine bind (check .leftBrace) fun _ _ hbrace => ite (by rw [hbrace]) ?_ ?_
  · exact bind skipGroup fun _ _ _ => hrest _ _ rfl
  · refine bind initializer? fun _ _ _ =>
      bind (many (R := EqualBy Ident.unplaced) (whenever (eat .comma) ?_))
      fun _ _ hmore => bind (expect .semicolon) fun _ _ _ => hrest _ _ (forall₂_iff_map_eq.1 hmore)
    exact bind ident fun _ _ hname => bind initializer? fun _ _ _ => pure hname

theorem memberNamed {memberType memberType' : TypeSyntax}
    (htype : EqualBy TypeSyntax.unplaced memberType memberType') : Agrees (EqualBy MemberDecl.unplaced)
      (Parser.memberNamed head memberType) (Parser.memberNamed head' memberType') := by
  refine bind (namedType true) fun name name' hname => bind (check .dot) fun _ _ hdot => bind (kindAhead 1)
    fun _ _ hthis => ite (by rw [hdot, hthis]) (otherMember head head') (bind peek fun t t' ht => ?_)
  rw [Token.kind_eq_of_mark ht]
  split
  · exact method hhead htype hname
  · exact property hhead htype hname
  · exact property hhead htype hname
  · exact field hhead htype hname
  · exact field hhead htype hname
  · exact field hhead htype hname
  · exact failAt _

theorem memberAfter (typeName : String) :
    Agrees (EqualBy MemberDecl.unplaced) (Parser.memberAfter typeName head)
      (Parser.memberAfter typeName head') := by
  refine bind get fun s s' hs => ?_
  rw [hs.kind_current, isConstructor_congr hs]
  split
  · exact event hhead
  · exact otherMember head head'
  · exact otherMember head head'
  · exact otherMember head head'
  · exact failAt _
  · exact failAt _
  · refine ite Iff.rfl (otherMember head head') (bind type fun _ _ htype => bind peek fun t t' ht => ?_)
    rw [Token.kind_eq_of_mark ht]
    split
    · exact otherMember head head'
    · exact otherMember head head'
    · exact memberNamed hhead htype
    · exact failExpecting _

omit hhead

/-! ### Declarations -/

theorem newDeclId : Agrees Eq Parser.newDeclId Parser.newDeclId := by
  refine bind get fun s s' hs => ?_
  have hset : Agrees (fun _ _ => True) (MonadState.set { s with nextDecl := s.nextDecl + 1 } : Parser PUnit)
      (MonadState.set { s' with nextDecl := s'.nextDecl + 1 }) :=
    fun _ _ _ => .ok { hs with nextDecl := congrArg (· + 1) hs.nextDecl } trivial
  exact bind hset fun _ _ _ => pure (by rw [hs.source, hs.nextDecl])

theorem typeKind : Agrees Eq Parser.typeKind Parser.typeKind := by
  refine bind advance fun t t' ht => ?_
  rw [Token.kind_eq_of_mark ht]
  split
  · exact pure rfl
  · exact pure rfl
  · exact pure rfl
  · exact pure rfl
  · refine bind (eat .structKeyword) fun _ _ hstruct => ite (by rw [hstruct]) (pure rfl) ?_
    exact bind (eat .classKeyword) fun _ _ _ => pure rfl

theorem closingBrace : Agrees (fun _ _ => True) Parser.closingBrace Parser.closingBrace :=
  bind (eat .rightBrace) fun _ _ hbrace => ite (by rw [hbrace])
    (modify fun _ _ hs => hs.report (hs.unexpected _)) (pure trivial)

theorem skipBases : Agrees (fun _ _ => True) Parser.skipBases Parser.skipBases := by
  refine bind (check .leftParen) fun _ _ hparen => ?_
  extract_lets rest
  have hrest : Agrees (fun _ _ => True) (rest ()) (rest ()) :=
    bind (check .colon) fun _ _ hcolon => bind get fun _ _ hs =>
      ite (by rw [hcolon, hs.checkWord]) (skipUntil _) (pure trivial)
  exact ite (by rw [hparen]) (bind skipGroup fun _ _ _ => hrest) hrest

section

variable {nested nested' : MemberHead → Parser TypeDecl}
  (hnested : ∀ head head', EqualBy MemberHead.unplaced head head' →
  Agrees (EqualBy TypeDecl.unplaced) (nested head) (nested' head'))
include hnested

theorem member (typeName : String) :
    Agrees (EqualBy MemberDecl.unplaced) (Parser.member nested typeName)
      (Parser.member nested' typeName) := by
  refine bind memberHead fun head head' hhead => bind get fun s s' hs => ite (by rw [isTypeKeyword_congr hs])
    (map (hnested head head' hhead) fun _ _ hdecl => ?_) (memberAfter hhead typeName)
  rw [EqualBy, MemberDecl.unplaced, MemberDecl.unplaced, hdecl]

theorem typeBody (typeName : String) :
    Agrees (EqualBy (List.map MemberDecl.unplaced)) (Parser.typeBody nested typeName)
      (Parser.typeBody nested' typeName) := by
  refine bind (many (R := EqualBy (Option.map MemberDecl.unplaced)) ?_) fun members members' hmembers =>
    pure ?_
  · refine bind atEnd fun _ _ hend => bind (check .rightBrace) fun _ _ hbrace =>
      ite (by rw [hend, hbrace]) (pure .none)
      (bind (eat .semicolon) fun _ _ hsemicolon => ite (by rw [hsemicolon]) (pure (.some rfl)) ?_)
    refine map (recovering (R := EqualBy (Option.map MemberDecl.unplaced)) rfl ?_) fun _ _ h => .some h
    exact map (member hnested typeName) fun _ _ hmember => congrArg some hmember
  · have hlist := congrArg (List.filterMap id) (forall₂_iff_map_eq.1 hmembers)
    rw [List.filterMap_map, List.filterMap_map] at hlist
    rw [EqualBy, List.map_filterMap, List.map_filterMap]
    exact hlist

theorem typeMembers (kind : TypeKind) (typeName : String) : Agrees (EqualBy (List.map MemberDecl.unplaced))
    (Parser.typeMembers nested kind typeName) (Parser.typeMembers nested' kind typeName) := by
  refine bind (eat .semicolon) fun _ _ hsemicolon => ite (by rw [hsemicolon]) (pure rfl)
    (bind (expect .leftBrace) fun _ _ _ => ?_)
  extract_lets rest
  have hrest : ∀ members members', EqualBy (List.map MemberDecl.unplaced) members members' →
      Agrees (EqualBy (List.map MemberDecl.unplaced)) (rest members) (rest members') :=
      fun members members' hmembers =>
    bind closingBrace fun _ _ _ => bind (eat .semicolon) fun _ _ _ => pure hmembers
  refine ite Iff.rfl ?_ (bind (typeBody hnested typeName) hrest)
  exact bind (skipUntil _) fun _ _ _ => hrest _ _ rfl

theorem typeDeclOf {head head' : MemberHead} (hhead : EqualBy MemberHead.unplaced head head') :
    Agrees (EqualBy TypeDecl.unplaced) (Parser.typeDeclOf nested head)
      (Parser.typeDeclOf nested' head') := by
  obtain ⟨hattributes, hmodifiers⟩ := MemberHead.of_unplaced hhead
  refine bind newDeclId fun _ _ hid => bind typeKind fun kind kind' hkind =>
    bind ident fun name name' hname =>
    bind typeParams fun _ _ hparams => bind skipBases fun _ _ _ => ?_
  -- the members are read in view of the kind and the name, which the runs have in common
  obtain rfl := hkind
  have hword : name.name = name'.name := (Ident.mk.inj hname).1
  rw [hword]
  refine bind (typeMembers hnested kind name'.name) fun _ _ hmembers =>
    bind (spanFrom _ _) fun _ _ _ => pure ?_
  rw [EqualBy, TypeDecl.unplaced, TypeDecl.unplaced, MemberDecl.unplacedList_eq,
    MemberDecl.unplacedList_eq, hid, hattributes, hmodifiers, hname, hparams, hmembers]

end

theorem typeDecl {head head' : MemberHead} (hhead : EqualBy MemberHead.unplaced head head') :
    Agrees (EqualBy TypeDecl.unplaced) (Parser.typeDecl head) (Parser.typeDecl head') :=
  fix (fun _ _ hinner _ _ h => typeDeclOf hinner h) hhead

theorem namespaceType :
    Agrees (Option.Rel (EqualBy TypeDecl.unplaced)) Parser.namespaceType Parser.namespaceType := by
  refine bind memberHead fun head head' hhead => bind get fun s s' hs => ite (by rw [isTypeKeyword_congr hs])
    (map (typeDecl hhead) fun _ _ hdecl => .some hdecl) (ite (by rw [hs.check]) ?_ (failAt _))
  exact bind (skipUntil _) fun _ _ _ => bind (expect .semicolon) fun _ _ _ => pure .none

/-! ### Sources -/

theorem usingKind : Agrees (EqualBy UsingKind.unplaced) Parser.usingKind Parser.usingKind := by
  refine bind get fun s s' hs => ite (by rw [hs.kind_current, hs.lexeme_current])
    (bind advance fun _ _ _ => pure rfl) (ite (by rw [hs.check, hs.kind_ahead]) ?_ (pure rfl))
  exact bind ident fun _ _ hname => bind advance fun _ _ _ => pure (congrArg UsingKind.aliasImport hname)

theorem usingDirective :
    Agrees (EqualBy UsingDirective.unplaced) Parser.usingDirective Parser.usingDirective := by
  refine bind peek fun _ _ _ => bind (eatWord? _) fun word? word?' hword =>
    bind (expect .usingKeyword) fun _ _ _ =>
    bind usingKind fun _ _ hkind => bind type fun _ _ htarget => bind (expect .semicolon) fun _ _ _ =>
      bind (spanFrom _ _) fun _ _ _ => pure ?_
  have hglobal : word?.isSome = word?'.isSome := by cases hword <;> rfl
  rw [EqualBy, UsingDirective.unplaced, UsingDirective.unplaced, hkind, htarget, hglobal]

section

variable {space space' : Parser NamespaceDecl}
  (hspace : Agrees (EqualBy NamespaceDecl.unplaced) space space')
include hspace

theorem namespaceItem : Agrees (EqualBy NamespaceBody.unplaced) (Parser.namespaceItem space)
    (Parser.namespaceItem space') := by
  refine bind get fun s s' hs => ite (by rw [isUsing_congr hs]) ?_
    (ite (by rw [isGlobalAttribute_congr hs]) ?_ (ite (by rw [hs.check]) ?_ (ite (by rw [hs.check]) ?_ ?_)))
  · exact bind usingDirective fun _ _ hdecl =>
      pure (congrArg (fun decl => NamespaceBody.mk [decl] [] []) hdecl)
  · exact bind attributeList fun _ _ hlist =>
      pure (congrArg (fun list => NamespaceBody.mk [] [list] []) hlist)
  · refine bind hspace fun _ _ hdecl => pure ?_
    rw [EqualBy, NamespaceBody.unplaced, NamespaceBody.unplaced, List.map_singleton, List.map_singleton,
      NamespaceMember.unplaced, NamespaceMember.unplaced, hdecl]
  · exact bind advance fun _ _ ht => throw (congrArg ParseCause.stray (Token.lexeme_eq_of_mark ht))
  · refine bind namespaceType fun decl? decl?' hdecl => pure ?_
    cases hdecl with
    | none => rfl
    | some hdecl =>
        simp only [EqualBy, NamespaceBody.unplaced, Option.toList_some, List.map_singleton,
          NamespaceMember.unplaced]
        rw [hdecl]

theorem namespaceBody (braced : Bool) :
    Agrees (EqualBy NamespaceBody.unplaced) (Parser.namespaceBody space braced)
      (Parser.namespaceBody space' braced) := by
  refine bind (many (R := EqualBy NamespaceBody.unplaced) ?_) fun parts parts' hparts => pure ?_
  · refine bind atEnd fun _ _ hend => bind (check .rightBrace) fun _ _ hbrace =>
      ite (by rw [hend, hbrace]) (pure .none) ?_
    exact map (recovering (R := EqualBy NamespaceBody.unplaced) rfl (namespaceItem hspace)) fun _ _ h =>
      .some h
  · rw [EqualBy, NamespaceBody.unplaced_concat, NamespaceBody.unplaced_concat, forall₂_iff_map_eq.1 hparts]

theorem namespaceDeclOf : Agrees (EqualBy NamespaceDecl.unplaced) (Parser.namespaceDeclOf space)
    (Parser.namespaceDeclOf space') := by
  refine bind (expect .namespaceKeyword) fun _ _ _ => bind ident fun first first' hfirst =>
    bind (many (whenever (eat .dot) ident)) fun more more' hmore =>
      bind (eat .semicolon) fun _ _ hscoped => ?_
  obtain rfl := hscoped
  extract_lets rest rest'
  have hrest : ∀ body body', EqualBy NamespaceBody.unplaced body body' →
      Agrees (EqualBy NamespaceDecl.unplaced) (rest body) (rest' body') := by
    intro body body' hbody
    obtain ⟨husings, -, hmembers⟩ := NamespaceBody.mk.inj hbody
    refine bind (spanFrom _ _) fun _ _ _ => pure ?_
    rw [EqualBy, NamespaceDecl.unplaced, NamespaceDecl.unplaced, NamespaceMember.unplacedList_eq,
      NamespaceMember.unplacedList_eq, List.map_cons, List.map_cons, hfirst, forall₂_iff_map_eq.1 hmore,
      husings, hmembers]
  refine ite Iff.rfl (bind (namespaceBody hspace false) hrest) ?_
  exact bind (expect .leftBrace) fun _ _ _ => bind (namespaceBody hspace true) fun _ _ hbody =>
    bind closingBrace fun _ _ _ => bind (eat .semicolon) fun _ _ _ => hrest _ _ hbody

end

theorem namespaceDecl : Agrees (EqualBy NamespaceDecl.unplaced) Parser.namespaceDecl Parser.namespaceDecl :=
  fix (I := fun _ _ => True) (fun _ _ hinner _ _ _ => namespaceDeclOf (hinner () () trivial)) trivial

theorem sourceFile : Agrees (EqualBy SourceFile.unplaced) Parser.sourceFile Parser.sourceFile := by
  refine bind get fun s s' hs => bind (namespaceBody namespaceDecl false) fun body body' hbody => pure ?_
  obtain ⟨husings, hattributes, hmembers⟩ := NamespaceBody.mk.inj hbody
  rw [EqualBy, SourceFile.unplaced, SourceFile.unplaced, hs.source, husings, hattributes, hmembers]

end Agrees

end Parser

/-! ### Trees -/

theorem ParserState.alike_ofText (source : SourceId) {a b : String}
    (errors : (TokenStream.ofText a).errors = []) (errors' : (TokenStream.ofText b).errors = [])
    (tokens : (TokenStream.ofText a).tokens.map Token.mark = (TokenStream.ofText b).tokens.map Token.mark) :
    (ParserState.ofText source a).Alike (.ofText source b) where
  source := rfl
  unread := tokens
  errors := by rw [ParserState.ofText, ParserState.ofText, errors, errors']
  panicking := rfl
  nextDecl := rfl

namespace SourceFile

theorem unplaced_errors {errors errors' : List ParseError}
    (h : errors.map (·.cause) = errors'.map (·.cause)) :
    errors.map ParseError.unplaced = errors'.map ParseError.unplaced := by
  have hmap := congrArg (List.map (ParseError.mk · .nowhere)) h
  rwa [List.map_map, List.map_map] at hmap

/-- Two sources that are made of tokens of the same classes with the same texts, wherever these stand and
whatever blanks, comments and directives stand between them, have trees and errors
that differ in places only. -/
theorem unplaced_ofText_of_marks (source : SourceId) (a b : String)
    (errors : (TokenStream.ofText a).errors = []) (errors' : (TokenStream.ofText b).errors = [])
    (tokens : (TokenStream.ofText a).tokens.map Token.mark = (TokenStream.ofText b).tokens.map Token.mark) :
    (ofText source a).1.unplaced = (ofText source b).1.unplaced ∧
      (ofText source a).2.map ParseError.unplaced = (ofText source b).2.map ParseError.unplaced := by
  have hrun := Parser.Agrees.sourceFile _ _ (ParserState.alike_ofText source errors errors' tokens)
  unfold ofText EStateM.run
  revert hrun
  generalize Parser.sourceFile (.ofText source a) = result
  generalize Parser.sourceFile (.ofText source b) = result'
  intro hrun
  cases hrun with
  | ok alike related => exact ⟨related, unplaced_errors alike.errors⟩
  | error alike cause =>
      refine ⟨rfl, unplaced_errors ?_⟩
      rw [List.map_append, List.map_append, alike.errors, List.map_singleton, List.map_singleton, cause]

/-- A class with a property, and a field that is not finished. -/
def brokenClass : String := "class A\x7bint P=>1;int;\x7d"

/-- The same tokens on lines of their own, with comments and a directive between them. -/
def spreadBrokenClass :
    String := "#region R\nclass A // a\n\x7b\n  int P /* p */ => 1 ;\n#endregion\n  int ;\n\x7d\n"

/-- The trees and errors of both differ in places only, and there is an error. -/
theorem unplaced_ofText_of_marks_brokenClass :
    (ofText ⟨0⟩ brokenClass).1.unplaced = (ofText ⟨0⟩ spreadBrokenClass).1.unplaced ∧
      (ofText ⟨0⟩ brokenClass).2.map ParseError.unplaced =
      (ofText ⟨0⟩ spreadBrokenClass).2.map ParseError.unplaced ∧
      (ofText ⟨0⟩ brokenClass).2.length = 1 := by
  obtain ⟨htree, herrors⟩ := unplaced_ofText_of_marks ⟨0⟩ brokenClass spreadBrokenClass (by decide +kernel)
    (by decide +kernel) (by decide +kernel)
  exact ⟨htree, herrors, by decide +kernel⟩

end SourceFile

end Graft
