/-
Module: Graft.Proofs.Parser.Containment
Purpose: Errors in the body of a class do not reach the classes behind it.
Main exports: Parser.Classes, Parser.namespaceBody_classes, SourceFile.members_twoClasses

A file of classes whose bodies are properly nested holds exactly these classes, whatever stands in their
bodies, as long as no property has accessors that cannot be read.  An accessor that cannot be read leaves
the reading inside the braces of its property, and recovery takes the brace that closes them for the end
of the class.
-/
import Graft.Proofs.Parser.Body
import Graft.Proofs.Token.Enclosed

namespace Graft

/-- The name of a class; other members of a namespace give none. -/
def NamespaceMember.className? : NamespaceMember → Option String
  | .space _ => none
  | .type decl => if decl.kind = .classKind then some decl.name.name else none

namespace Parser

variable {all : List Token} {names : List String} {s : ParserState}

/-- The tokens of classes with these names, one after another, with properly nested bodies. -/
inductive Classes : List String → List Token → Prop where
  | nil : Classes [] []
  | cons {keyword name opening closing : Token} {body rest : List Token} {names : List String}
      (hkeyword : keyword.kind = .classKeyword) (hname : name.kind = .identifier)
      (hopening : opening.kind = .leftBrace) (hclosing : closing.kind = .rightBrace)
      (inside : Nested body) (later : Classes names rest) :
      Classes (name.name :: names) (keyword :: name :: opening :: (body ++ closing :: rest))

/-- Behind a class another one starts, or the tokens end. -/
theorem Classes.current (h : Classes names s.unread) :
    s.current.kind = .classKeyword ∨ s.current.kind = .endOfFile := by
  cases hunread : s.unread with
  | nil => exact .inr (by simp [ParserState.current, ParserState.ahead, hunread, Token.endOfFile])
  | cons t rest =>
      rw [hunread] at h
      cases h with
      | cons hkeyword _ _ _ _ _ => exact .inl (by rw [current_of_unread hunread, hkeyword])

/-! ### Single tokens -/

section

variable {α β : Type} {t : ParserState} {kind : TokenKind}

theorem map_eq {p : Parser α} {a : α} (h : p s = .ok a t) (g : α → β) : (g <$> p) s = .ok (g a) t := by
  change EStateM.map g p s = .ok (g a) t
  unfold EStateM.map
  rw [h]

/-- An item that yields nothing at once is not repeated. -/
theorem many_eq_nil {item : Parser (Option α)} (h : item s = .ok none t) : many item s = .ok [] t :=
  (Items.done h).many_eq

theorem eat?_eq_none (h : s.check kind = false) : eat? kind s = .ok none s := by
  change (if s.check kind = true then some <$> advance else pure none : Parser (Option Token)) s = _
  rw [if_neg (Bool.eq_false_iff.1 h)]
  rfl

theorem eat?_eq_some (h : s.check kind = true) : eat? kind s = .ok (some s.current) (s.pass 1) := by
  change (if s.check kind = true then some <$> advance else pure none : Parser (Option Token)) s = _
  rw [if_pos h]
  rfl

theorem eat_eq (h : s.check kind = false) : eat kind s = .ok false s := bind_eq (eat?_eq_none h) _

theorem eat_eq_true (h : s.check kind = true) : eat kind s = .ok true (s.pass 1) :=
  bind_eq (eat?_eq_some h) _

theorem expect_eq (h : s.check kind = true) : expect kind s = .ok s.current (s.pass 1) :=
  bind_eq (eat?_eq_some h) _

/-- An item behind a token that comes next. -/
theorem whenever_eat_eq {item : Parser α} {a : α} (h : s.check kind = true)
    (hitem : item (s.pass 1) = .ok a t) :
    whenever (eat kind) item s = .ok (some a) t := (bind_eq (eat_eq_true h) _).trans (map_eq hitem _)

theorem whenever_eat_eq_none {item : Parser α} (h : s.check kind = false) :
    whenever (eat kind) item s = .ok none s := bind_eq (eat_eq h) _

end

/-! ### A class -/

theorem typeKind_eq (h : s.current.kind = .classKeyword) : typeKind s = .ok .classKind (s.pass 1) := by
  refine (bind_eq (p := advance) rfl _).trans ?_
  rw [h]
  rfl

/-- Neither type parameters nor bases stand before an opening brace. -/
theorem typeParams_eq (h : s.current.kind = .leftBrace) : typeParams s = .ok [] s := by
  have hless : s.check .less = false := by
    rw [ParserState.check, h]
    rfl
  exact bind_eq (eat_eq hless) _

theorem skipBases_eq (h : s.current.kind = .leftBrace) : skipBases s = .ok () s := by
  have hother : s.check .leftParen = false ∧ s.check .colon = false ∧ s.checkWord "where" = false := by
    rw [ParserState.check, ParserState.check, ParserState.checkWord, h]
    exact ⟨rfl, rfl, rfl⟩
  obtain ⟨hparen, hcolon, hwhere⟩ := hother
  have hrun : Outcome (fun _ t => t = s) (fun _ => False) skipBases s := by
    refine .check <| .ite (fun h => by rw [hparen] at h; cases h) fun _ => .check <| .get <|
      .ite (fun h => ?_) fun _ => .pure rfl
    rw [hcolon, hwhere] at h
    cases h
  obtain ⟨_, _, heq, rfl⟩ := hrun.exists_ok
  exact heq

/-- What the members of a class are read as is what the class is read as. -/
theorem typeDeclOf_class {inner : MemberHead → Parser TypeDecl} {R : List MemberDecl → ParserState → Prop}
    {E : ParserState → Prop} {keyword name opening : Token} {rest : List Token}
    (hunread : s.unread = keyword :: name :: opening :: rest) (hkeyword : keyword.kind = .classKeyword)
    (hname : name.kind = .identifier) (hopening : opening.kind = .leftBrace) (head : MemberHead)
    (hmembers : Outcome R E (typeMembers inner .classKind name.name)
      (({ s with nextDecl := s.nextDecl + 1 }.pass 1).pass 1)) :
    Outcome (fun decl t => R decl.members t ∧ decl.kind = .classKind ∧ decl.name.name = name.name) E
      (typeDeclOf inner head) s := by
  refine .after (p := newDeclId) (t := { s with nextDecl := s.nextDecl + 1 }) rfl ?_
  generalize hstart : { s with nextDecl := s.nextDecl + 1 } = t at hmembers ⊢
  have ht : t.unread = keyword :: name :: opening :: rest := by
    rw [← hstart]
    exact hunread
  have hu := unread_pass_one ht
  have hv := unread_pass_one hu
  refine .after (typeKind_eq (by rw [current_of_unread ht, hkeyword])) ?_
  refine .after (ident_eq (by rw [current_of_unread hu, hname])) ?_
  have hbrace : ((t.pass 1).pass 1).current.kind = .leftBrace := by rw [current_of_unread hv, hopening]
  refine .after (typeParams_eq hbrace) (.after (skipBases_eq hbrace) ?_)
  rw [current_of_unread hu]
  exact hmembers.bind fun members u _ hR => .spanFrom <| .pure ⟨hR, rfl, rfl⟩

/-- A class is read up to the brace that closes its body. -/
theorem typeDecl_class (readable : Readable all) {keyword name opening closing : Token}
    {body rest : List Token} (hall : s.unread <:+ all)
    (hunread : s.unread = keyword :: name :: opening :: (body ++ closing :: rest))
    (hkeyword : keyword.kind = .classKeyword) (hname : name.kind = .identifier)
    (hopening : opening.kind = .leftBrace) (hclosing : closing.kind = .rightBrace)
    (inside : Nested body) (later : Classes names rest) (head : MemberHead) :
    Outcome (fun decl t => t.unread = rest ∧ decl.kind = .classKind ∧ decl.name.name = name.name)
      (fun _ => False) (typeDecl head) s := by
  refine .fix fun rounds => ?_
  refine typeDeclOf_class (R := fun _ t => t.unread = rest) hunread hkeyword hname hopening head ?_
  have hv : (({ s with nextDecl := s.nextDecl + 1 }.pass 1).pass 1).unread =
      opening :: (body ++ closing :: rest) := unread_pass_one (unread_pass_one hunread)
  generalize ({ s with nextDecl := s.nextDecl + 1 }.pass 1).pass 1 = v at hv ⊢
  have hw := unread_pass_one hv
  have hbrace : v.current.kind = .leftBrace := by rw [current_of_unread hv, hopening]
  have hinside : Closes (closing :: rest) := .cons hclosing
  obtain ⟨before, hbefore⟩ := hall
  have hsplit : before ++ [keyword, name] ++ opening :: (v.pass 1).unread = all := by
    rw [← hbefore, hunread, hw]
    simp
  have hfresh : Fresh all (closing :: rest) (v.pass 1) :=
    .of_start ⟨⟨body, hw, inside.loose⟩, before ++ [keyword, name, opening], by simp [← hsplit]⟩
      ⟨_, opening, hsplit.symm, .inl hopening⟩
  refine (bracedMembers_outcome readable (keepsBodies_unfold readable rounds) hbrace hw inside hinside
    hfresh .classKind _).mono (fun members w hend => ?_) fun _ h => h.elim
  obtain ⟨x, hx, rfl | ⟨hsemicolon, rfl⟩⟩ := hend
  · exact unread_pass_one hx
  · rw [← unread_pass_one hx] at later
    rcases later.current with hkind | hkind <;> rw [hkind] at hsemicolon <;> cases hsemicolon

/-! ### A file of classes -/

/-- If an item yields a value for each of the things that come next, a repetition yields these values in
their order. -/
theorem Outcome.many_forall₂ {α ι : Type} {item : Parser (Option α)} {E : ParserState → Prop}
    {N : List ι → ParserState → Prop} {G : ι → α → Prop}
    (hdone : ∀ s, N [] s → Outcome (fun a? _ => a? = none) (fun _ => False) item s)
    (hmore : ∀ i rest s, N (i :: rest) s → Outcome (fun a? t => (∃ a, a? = some a ∧ G i a) ∧
      N rest t ∧ t.unread.length < s.unread.length) (fun _ => False) item s)
    {things : List ι} (hs : N things s) :
    Outcome (fun list _ => List.Forall₂ G things list) E (Parser.many item) s := by
  have hitems : ∃ list t, Items item s list t ∧ List.Forall₂ G things list := by
    induction things generalizing s with
    | nil =>
        obtain ⟨a?, t, hlast, rfl⟩ := (hdone s hs).exists_ok
        exact ⟨[], t, .done hlast, .nil⟩
    | cons i rest ih =>
        obtain ⟨a?, t, hfirst, ⟨a, rfl, ha⟩, ht, hshorter⟩ := (hmore i rest s hs).exists_ok
        obtain ⟨list, u, hitems, hlist⟩ := ih ht
        exact ⟨a :: list, u, .more hfirst hshorter hitems, .cons ha hlist⟩
  obtain ⟨list, t, hitems, hlist⟩ := hitems
  exact .of_eq hitems.many_eq hlist

/-- A part of a file that is a class with this name. -/
def IsClass (name : String) (part : NamespaceBody) : Prop :=
  ∃ decl, part.members = [.type decl] ∧ NamespaceMember.className? (.type decl) = some name

/-- What a class is read as is what an item of a file is read as. -/
theorem namespaceItem_typeDecl (space : Parser NamespaceDecl) {R : TypeDecl → ParserState → Prop}
    {E : ParserState → Prop} (hkind : s.current.kind = .classKeyword)
    (hdecl : Outcome R E (typeDecl ⟨[], .empty, s.current.span⟩) s) :
    Outcome (fun part t => ∃ decl, part.members = [.type decl] ∧ R decl t) E (namespaceItem space) s := by
  have hother : isUsing s = false ∧ isGlobalAttribute s = false ∧
      s.check .namespaceKeyword = false ∧ s.check .rightBrace = false := by
    simp [isUsing, isGlobalAttribute, ParserState.check, ParserState.checkWord, hkind]
  obtain ⟨husing, hglobal, hspace, hbrace⟩ := hother
  have hhead : memberHead s = .ok ⟨[], .empty, s.current.span⟩ s :=
    memberHead_eq (by simp [ParserState.check, hkind]) (by simp [isModifier, hkind])
  have htype : isTypeKeyword s = true := by simp [isTypeKeyword, hkind]
  refine .get <| .ite (fun h => by rw [husing] at h; cases h) fun _ =>
    .ite (fun h => by rw [hglobal] at h; cases h) fun _ =>
    .ite (fun h => by rw [hspace] at h; cases h) fun _ =>
    .ite (fun h => by rw [hbrace] at h; cases h) fun _ => ?_
  refine Outcome.bind (Q := fun decl? t => ∃ decl, decl? = some decl ∧ R decl t) ?_ fun decl? t _ ht =>
    .pure ?_
  · refine .after hhead <| .get <| .ite (fun _ => ?_) fun h => absurd htype h
    exact hdecl.map fun decl t ht => ⟨decl, rfl, ht⟩
  · obtain ⟨decl, rfl, ht⟩ := ht
    exact ⟨decl, rfl, ht⟩

/-- A class is an item of a file. -/
theorem namespaceItem_class (readable : Readable all) (space : Parser NamespaceDecl) {name : String}
    (hall : s.unread <:+ all) (h : Classes (name :: names) s.unread) :
    Outcome (fun part t => IsClass name part ∧ Classes names t.unread ∧ t.unread <:+ s.unread ∧
      t.unread.length < s.unread.length) (fun _ => False) (namespaceItem space) s := by
  generalize hunread : s.unread = tokens at h
  cases h with
  | @cons keyword word opening closing body rest _ hkeyword hname hopening hclosing inside later =>
      have hkind : s.current.kind = .classKeyword := by rw [current_of_unread hunread, hkeyword]
      have hdecl := typeDecl_class readable hall hunread hkeyword hname hopening hclosing inside later
        ⟨[], .empty, s.current.span⟩
      refine (namespaceItem_typeDecl space hkind hdecl).mono (fun part t ht => ?_) fun _ h => h
      obtain ⟨decl, hmembers, rfl, hclass, hname⟩ := ht
      refine ⟨⟨decl, hmembers, by simp [NamespaceMember.className?, hclass, hname]⟩, later, ?_, ?_⟩
      · exact ⟨keyword :: word :: opening :: (body ++ [closing]), by simp⟩
      · simp only [List.length_cons, List.length_append]
        omega

theorem map_className?_of_forall₂ {parts : List NamespaceBody} (h : List.Forall₂ IsClass names parts) :
    (NamespaceBody.concat parts).members.map NamespaceMember.className? = names.map some := by
  induction h with
  | nil => rfl
  | @cons name part names parts first _ ih =>
      obtain ⟨decl, hmembers, hname⟩ := first
      rw [NamespaceBody.concat, List.foldr_cons, ← NamespaceBody.concat]
      simp only [NamespaceBody.append, List.map_append, hmembers, ih]
      simp [hname]

/-- A file of classes holds these classes. -/
theorem namespaceBody_classes (readable : Readable all) (space : Parser NamespaceDecl)
    (hall : s.unread <:+ all) (h : Classes names s.unread) :
    Outcome (fun body _ => body.members.map NamespaceMember.className? = names.map some) (fun _ => False)
      (namespaceBody space false) s := by
  refine Outcome.bind (Q := fun parts _ => List.Forall₂ IsClass names parts) ?_ fun _ _ _ hparts =>
    .pure (map_className?_of_forall₂ hparts)
  refine Outcome.many_forall₂ (N := fun names t => Classes names t.unread ∧ t.unread <:+ all)
    (fun t ht => ?_) (fun name names t ht => ?_) ⟨h, hall⟩
  · have hend : t.unread = [] := by
      generalize t.unread = tokens at ht
      cases ht.1
      rfl
    have hatEnd : t.atEnd = true := by rw [ParserState.atEnd, hend]; rfl
    refine .atEnd <| .check <| .ite (fun _ => .pure rfl) fun h => ?_
    rw [hatEnd] at h
    exact absurd rfl h
  · have hkind : t.unread ≠ [] := by
      intro hend
      rw [hend] at ht
      cases ht.1
    have hatEnd : t.atEnd = false := by simpa [ParserState.atEnd] using hkind
    refine .atEnd <| .check <| .ite (fun h => ?_) fun _ => ?_
    · rw [hatEnd] at h
      cases h
    · refine Outcome.map (Q := fun part u => IsClass name part ∧ Classes names u.unread ∧
        u.unread <:+ t.unread ∧ u.unread.length < t.unread.length) ?_ fun part u hu =>
          ⟨⟨part, rfl, hu.1⟩, ⟨hu.2.1, hu.2.2.1.trans ht.2⟩, hu.2.2.2⟩
      exact (namespaceItem_class readable space ht.2 ht.1).tryCatch fun _ _ _ h => h.elim

/-! ### Two classes -/

open TokenStream (twoClasses)

/-- A token with the spelling of a name is called by that name. -/
theorem name_of_mark {t : Token} {kind : TokenKind} {x : Char} (hx : x ≠ '@')
    (h : t.mark = (kind, String.singleton x)) : t.name = String.singleton x := by
  have hlexeme : t.lexeme = String.singleton x := congrArg Prod.snd h
  have htext : (String.singleton x).toList = [x] := String.toList_singleton x
  unfold Token.name
  rw [hlexeme, htext]
  split
  · rename_i heq
    cases heq
    exact absurd rfl hx
  · rfl

/-- Tokens with the same spellings are of the same classes. -/
theorem map_kind_of_mark {u v : List Token} (h : u.map Token.mark = v.map Token.mark) :
    u.map Token.kind = v.map Token.kind := by
  have hfst := congrArg (List.map Prod.fst) h
  rwa [List.map_map, List.map_map] at hfst

/-- The tokens of a class, seen from their spellings. -/
theorem Classes.of_marks {tokens body : List Token} {x : Char} {behind : List (TokenKind × String)}
    {names : List String} (hx : x ≠ '@') (nested : Nested body)
    (h : tokens.map Token.mark = (.classKeyword, "class") :: (.identifier, String.singleton x) ::
      (.leftBrace, "\x7b") :: (body.map Token.mark ++ (.rightBrace, "\x7d") :: behind))
    (later : ∀ rest : List Token, rest.map Token.mark = behind → Classes names rest) :
    Classes (String.singleton x :: names) tokens := by
  have hkind : ∀ {t : Token} {kind text}, t.mark = (kind, text) → t.kind = kind := congrArg Prod.fst
  obtain ⟨keyword, _, rfl, hkeyword, h⟩ := List.map_eq_cons_iff.1 h
  obtain ⟨name, _, rfl, hname, h⟩ := List.map_eq_cons_iff.1 h
  obtain ⟨opening, _, rfl, hopening, h⟩ := List.map_eq_cons_iff.1 h
  obtain ⟨inside, _, rfl, hinside, h⟩ := List.map_eq_append_iff.1 h
  obtain ⟨closing, rest, rfl, hclosing, hrest⟩ := List.map_eq_cons_iff.1 h
  rw [← name_of_mark hx hname]
  exact .cons (hkind hkeyword) (hkind hname) (hkind hopening) (hkind hclosing)
    (nested.congr (map_kind_of_mark hinside)) (later rest hrest)

/-- The tokens of the two classes are those of classes with properly nested bodies. -/
theorem classes_twoClasses {body : String} (clean : (TokenStream.ofText body).errors = [])
    (nested : Nested (TokenStream.ofText body).tokens) :
    Classes ["A", "B"] (TokenStream.ofText (twoClasses body)).tokens := by
  refine .of_marks (x := 'A') (by decide) nested (TokenStream.map_mark_twoClasses body clean)
    fun behind hbehind => ?_
  refine .of_marks (x := 'B') (by decide) Nested.nil hbehind fun rest hrest => ?_
  rw [List.map_eq_nil_iff.1 hrest]
  exact .nil

end Parser

open TokenStream (twoClasses)

namespace SourceFile

/-- Errors in the body of a class do not reach the class behind it, if the brackets in the body are
properly nested and behind no brace or `;` in it, those in skipped bodies included, there is a property
whose accessors cannot be read. -/
theorem members_twoClasses (source : SourceId) (body : String)
    (clean : (TokenStream.ofText body).errors = []) (nested : Nested (TokenStream.ofText body).tokens)
    (readable : Parser.Readable (TokenStream.ofText (twoClasses body)).tokens) :
    (ofText source (twoClasses body)).1.members.map NamespaceMember.className? = [some "A", some "B"] := by
  have hbody := Parser.namespaceBody_classes (s := .ofText source (twoClasses body)) readable
    Parser.namespaceDecl (List.suffix_refl _) (Parser.classes_twoClasses clean nested)
  obtain ⟨part, t, hrun, hmembers⟩ := hbody.exists_ok
  have hfile : ∃ file, Parser.sourceFile.run (.ofText source (twoClasses body)) = .ok file t ∧
      file.members = part.members := ⟨_, (Parser.bind_eq rfl _).trans (Parser.bind_eq hrun _), rfl⟩
  obtain ⟨file, hrun, hfile⟩ := hfile
  rw [ofText, hrun]
  dsimp only
  rw [hfile, hmembers]
  rfl

/-- A body that starts no member anywhere. -/
def strayEqual : String := "= \x7b \x7d;"

/-- The error in the body is reported, and both classes are there. -/
theorem members_twoClasses_strayEqual :
    (TokenStream.ofText strayEqual).errors = [] ∧ Nested (TokenStream.ofText strayEqual).tokens ∧
      Parser.Readable (TokenStream.ofText (twoClasses strayEqual)).tokens ∧
      (ofText ⟨0⟩ (twoClasses strayEqual)).2.length = 1 ∧
      (ofText ⟨0⟩ (twoClasses strayEqual)).1.members.map NamespaceMember.className? =
        [some "A", some "B"] := by
  have clean : (TokenStream.ofText strayEqual).errors = [] := by decide +kernel
  have nested : Nested (TokenStream.ofText strayEqual).tokens := by decide +kernel
  have readable : Parser.Readable (TokenStream.ofText (twoClasses strayEqual)).tokens :=
    .of_kinds (by decide +kernel)
  exact ⟨clean, nested, readable, by decide +kernel, members_twoClasses ⟨0⟩ strayEqual clean nested readable⟩

/-- A property one of whose accessors is none. -/
def unreadableAccessor : String := "int P \x7b foo; get; \x7d"

/-- If an accessor cannot be read, the class behind may be lost. -/
theorem members_twoClasses_unreadableAccessor :
    ¬∀ (source : SourceId) (body : String), (TokenStream.ofText body).errors = [] →
      Nested (TokenStream.ofText body).tokens →
        (ofText source (twoClasses body)).1.members.map NamespaceMember.className? =
          [some "A", some "B"] := by
  intro h
  have hmembers := h ⟨0⟩ unreadableAccessor (by decide +kernel) (by decide +kernel)
  have hlost : (ofText ⟨0⟩ (twoClasses unreadableAccessor)).1.members.map NamespaceMember.className? =
      [some "A"] := by decide +kernel
  rw [hlost] at hmembers
  cases hmembers

end SourceFile

end Graft
