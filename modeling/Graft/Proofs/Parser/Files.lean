/-
Module: Graft.Proofs.Parser.Files
Purpose: Types, namespaces and whole sources stand where their spans say.
Main exports: Parser.Reads.typeDecl, Parser.Reads.namespaceDecl, Parser.Reads.sourceFile,
  SourceFile.row_of_parse

Between declarations the parser always stands at an edge: at the start of the source, behind an opening
brace, or behind what ends the declaration before.  An item that cannot be read is passed with an error,
and then nothing is said.
-/
import Graft.Proofs.Parser.Members

namespace Graft

open Token (Clear GroupAt KindAt)
open Skip (Balanced openBehind?)

variable {all : List Token} {i j k : Nat}

/-- A result that has a value is this value. -/
theorem eq_ok_of_toOption {ε α : Type} {result : Except ε α} {a : α} (h : result.toOption = some a) :
    result = .ok a := by
  cases result with
  | error _ => cases h
  | ok _ => exact congrArg _ (Option.some.inj h)

/-- Rows that follow one another. -/
theorem Part.Row.append {list more : List Part} (h : Row all i k list) (h' : Row all k j more) :
    Row all i j (list ++ more) := by
  induction list generalizing i with
  | nil => exact h'.widen h.le (Nat.le_refl j)
  | cons p rest ih =>
      cases h with
      | cons le first later => exact .cons le first (ih later)

/-- Behind a member declarations may go on. -/
theorem Part.At.edge_member {d : MemberDecl} (h : At all i j (.member d)) : Token.Edge all j := h.fits.2.1

namespace Parser.Reads

/-! ### Types -/

/-- A declaration of a type behind what stands before it. -/
def TypeAt (all : List Token) (n : Nat) (head : MemberHead) (j : Nat) (d : TypeDecl) : Prop :=
  ∀ i, i ≤ n → Token.Edge all i → HeadAt all i n head → Part.At all i j (.type d)

theorem newDeclId : Reads all i (fun j _ => j = i) newDeclId := fun _ hs =>
  .of_eq rfl ⟨i, Nat.le_refl i, ⟨hs.unread, hs.inside, hs.last?, hs.tidy⟩, fun h => ⟨h, rfl⟩⟩

/-- One or two words say what is declared. -/
theorem typeKind : Reads all i (fun j _ => i < all.length → j = i + 1 ∨ j = i + 2) typeKind := by
  refine advance.bind fun j t _ _ => ?_
  have hone : ∀ kind : TypeKind, Reads all j
      (fun k _ => Token.PeekedAt all i t ∧ (i < all.length → j = i + 1) →
        i < all.length → k = i + 1 ∨ k = i + 2) (Pure.pure kind) := fun _ =>
    .pure fun h hlt => .inl (h.2 hlt)
  have htwo : ∀ kind : TypeKind, Reads all (j + 1)
      (fun k _ => Token.PeekedAt all i t ∧ (i < all.length → j = i + 1) →
        i < all.length → k = i + 1 ∨ k = i + 2) (Pure.pure kind) := fun _ =>
    .pure fun h hlt => .inr (congrArg (· + 1) (h.2 hlt))
  split
  · exact hone _
  · exact hone _
  · exact hone _
  · exact hone _
  · exact .eat (by decide) (fun _ => .ite (fun _ => htwo _) (absurd rfl)) (.ite nofun fun _ =>
      .eat (by decide) (fun _ => htwo _) (hone _))

/-- Before the body of a type all is passed up to one of these, outside all brackets. -/
abbrev typeStarts : List TokenKind := [.leftBrace, .semicolon]

theorem typeParam : Reads all i (fun j _ => Clear all typeStarts i j) typeParam := by
  have hident : ∀ k, Reads all k (fun l _ => Clear all typeStarts k l) Parser.ident := fun k =>
    ident.mono fun _ _ _ _ ⟨hl, t, ht, hkind, _⟩ => hl ▸ .token ⟨t, ht, hkind⟩ (by decide) rfl rfl
  refine (many (Q := fun i j _ => Clear all typeStarts i j) (fun n => ?_) i).bind fun j groups _ _ =>
    .peek fun t ht => .ite (fun h => ?_) fun _ => (hident j).mono fun _ _ _ _ h hgroups =>
      hgroups.clear.trans h
  · exact whenever_check (by decide) (fun hat => skipGroup.mono fun k _ _ _ h =>
      .group ⟨hat, h.2⟩ rfl (by decide)) (.refl n)
  · rw [Bool.and_eq_true, decide_eq_true_eq] at h
    have hat : KindAt all j .keyword := h.1 ▸ ht.kindAt (by rw [h.1]; decide)
    refine advance.bind fun k _ _ _ => (hident k).mono fun _ _ _ _ h hk hgroups => hgroups.clear.trans ?_
    obtain rfl := hk.2 hat.lt
    exact (Clear.token hat (by decide) rfl rfl).trans h

/-- What each item of a list passes is passed by the list, if it goes on behind the separators. -/
theorem clear_listed {α : Type} {list : List α}
    (h : Part.Listed all .comma (fun i j _ => Clear all typeStarts i j) i j list) :
    Clear all typeStarts i j := by
  induction h with
  | nil => exact .refl _
  | single item => exact item
  | cons first comma _ ih => exact (first.trans (.token comma (by decide) rfl rfl)).trans ih

theorem typeParams : Reads all i (fun j _ => Clear all typeStarts i j) typeParams := by
  refine .eat (by decide) (fun hless => .ite (fun _ => ?_) (absurd rfl))
    (.ite nofun fun _ => .pure (.refl i))
  refine (separated (fun _ => typeParam) (i + 1)).bind fun j params _ _ => (expect (by decide)).bind
    fun k greater _ _ => .pure ?_
  rintro ⟨rfl, hgreater⟩ hparams
  exact ((Clear.token hless (by decide) rfl rfl).trans (clear_listed hparams)).trans
    (.token ⟨greater, hgreater⟩ (by decide) rfl rfl)

theorem skipBases : Reads all i (fun j _ => Clear all typeStarts i j) skipBases := by
  refine .check (by decide) fun _ hparen => ?_
  extract_lets rest
  have hrest : ∀ j u, Reads all j (fun k _ => Clear all typeStarts j k) (rest u) := fun j _ =>
    .check (by decide) fun _ _ => .get fun _ _ => .ite (fun _ => (skipUntil _).mono fun k _ hjk _ h =>
      .of_upTo ⟨hjk, h⟩ (List.Subset.refl _)) fun _ => .pure (.refl j)
  refine .ite (fun h => skipGroup.bind fun j u _ _ => (hrest j u).mono fun _ _ _ _ h' hgroup => ?_) fun _ =>
    hrest i ()
  exact (Clear.group ⟨hparen h, hgroup.2⟩ rfl (by decide)).trans h'

/-- If no error is reported, the closing brace is there. -/
theorem closingBrace : Reads all i (fun j _ => KindAt all i .rightBrace ∧ j = i + 1) closingBrace := by
  refine .eat (by decide) (fun hbrace => .ite nofun fun _ => .pure ⟨hbrace, rfl⟩)
    (.ite (fun _ => ?_) (absurd rfl))
  exact fun s hs => .modify <| .pure ⟨i, Nat.le_refl i, hs.report _, fun h =>
    absurd h (by simp [ParserState.report])⟩

/-- What balances between braces is their body. -/
theorem fitsBraces_of_balanced (hopen : KindAt all i .leftBrace) (hclose : KindAt all k .rightBrace)
    (hik : i < k) (inside : Balanced (Token.between all (i + 1) k))
    (tail : KindAt all (k + 1) .semicolon ∧ j = k + 2 ∨ ¬KindAt all (k + 1) .semicolon ∧ j = k + 1) :
    Part.FitsBraces all i k j :=
  ⟨.of_group hopen (Nat.lt_succ_of_lt hik) (GroupAt.of_balanced hopen hclose rfl rfl hik inside).closes,
    hclose, tail⟩

theorem edge_of_fitsBraces (h : Part.FitsBraces all i k j) : Token.Edge all j := by
  rcases h.tail with ⟨hsemicolon, rfl⟩ | ⟨-, rfl⟩
  · exact .of_kindAt hsemicolon (.inr (.inl rfl))
  · exact .of_kindAt h.brace (.inr (.inr rfl))

/-- A `;` may follow the body of a declaration. -/
theorem optionalSemicolon {α : Type} {a : α} : Reads all i
    (fun j b => (KindAt all i .semicolon ∧ j = i + 1 ∨ ¬KindAt all i .semicolon ∧ j = i) ∧ b = a)
    (do let _ ← Parser.eat .semicolon; return a) :=
  .eat_or (by decide) (fun h => .pure ⟨.inl ⟨h, rfl⟩, rfl⟩) fun h => .pure ⟨.inr ⟨h, rfl⟩, rfl⟩

variable (ordered : Token.InOrder all)
include ordered

section

variable {typeDecl : MemberHead → Parser TypeDecl}
  (htypeDecl : ∀ head n, Reads all n (TypeAt all n head) (typeDecl head))
  (hopens : ∀ head n, Even.PlainAt all n → Opens all n 0 0 (typeDecl head))
include htypeDecl

theorem member (typeName : String) :
    Reads all i (fun j d => Token.Edge all i → Part.At all i j (.member d)) (member typeDecl typeName) := by
  refine (memberHead ordered).bind fun m head him _ => .get fun s _ => .ite (fun _ => ?_) fun _ => ?_
  · refine (htypeDecl head m).map fun j d _ _ hd hhead hedge => ?_
    have hat := hd i him hedge hhead
    exact .around rfl hat.place hat.fits hat (Nat.le_refl i) (Nat.le_refl j)
  · exact (memberAfter ordered typeName head him).mono fun j d _ _ h hhead hedge => h hedge hhead

/-- A further member of a type, unless a `;` stands in its place. -/
def NextMember (all : List Token) (i j : Nat) : Option (Option MemberDecl) → Prop
  | none => j = i
  | some none => KindAt all i .semicolon ∧ j = i + 1
  | some (some d) => Token.Edge all i → Part.At all i j (.member d)

/-- Members one behind another, from edge to edge. -/
structure MembersAt (all : List Token) (i j : Nat) (members : List MemberDecl) : Prop where
  edge : Token.Edge all j
  fits : Part.FitsMembers all i j members
  row : Part.Row all i j (members.map .member)

omit ordered htypeDecl in
/-- Members stand one behind another from edge to edge. -/
theorem Chain.members {list : List (Option MemberDecl)} (h : Chain (NextMember all) i j list)
    (hedge : Token.Edge all i) : MembersAt all i j (list.filterMap id) := by
  induction h with
  | done le last =>
      obtain rfl : _ = _ := last
      exact ⟨hedge, .nil, .nil le⟩
  | @more i k j d? rest le first _ ih =>
      cases d? with
      | none =>
          obtain ⟨hsemicolon, rfl⟩ := first
          have hrest := ih (.of_kindAt hsemicolon (.inr (.inl rfl)))
          exact ⟨hrest.edge, .semicolon hsemicolon hrest.fits, hrest.row.widen le (Nat.le_refl j)⟩
      | some d =>
          have hat : Part.At all i k (.member d) := first hedge
          have hrest := ih hat.edge_member
          exact ⟨hrest.edge, .member hat.place hrest.fits, .cons (Nat.le_refl i) hat hrest.row⟩

theorem typeBody (typeName : String) :
    Reads all i (fun j members => Token.Edge all i → MembersAt all i j members)
      (typeBody typeDecl typeName) := by
  refine (many (Q := NextMember all) (fun n => ?_) i).bind fun j members _ _ => .pure fun h => h.members
  refine .atEnd fun _ => .check (by decide) fun _ _ => .ite (fun _ => .pure rfl) fun _ => ?_
  refine .eat (by decide) (fun hsemicolon => .ite (fun _ => .pure ⟨hsemicolon, rfl⟩) (absurd rfl))
    (.ite nofun fun _ => ?_)
  exact (recovering none ((member ordered htypeDecl typeName).map (g := some)
    (R := fun j d? => NextMember all n j (some d?)) fun _ _ _ _ h => h)).map fun _ _ _ _ h => h

/-- The body of a type: `;`, or members between braces. -/
structure BodyOfType (all : List Token) (i j : Nat) (kind : TypeKind) (members : List MemberDecl) :
    Prop where
  lt : i < j
  edge : Token.Edge all j
  fits : KindAt all i .semicolon ∧ j = i + 1 ∧ members = [] ∨ ∃ k, Part.FitsBraces all i k j ∧
    if kind = .enumKind then members = [] else Part.FitsMembers all (i + 1) k members
  row : Part.Row all i j (members.map .member)

include hopens in
theorem typeMembers (kind : TypeKind) (typeName : String) :
    Reads all i (fun j members => BodyOfType all i j kind members) (typeMembers typeDecl kind typeName) := by
  refine .eat (by decide) (fun hsemicolon => .ite (fun _ => .pure ?_) (absurd rfl)) (.ite nofun fun _ => ?_)
  · exact ⟨Nat.lt_succ_self i, .of_kindAt hsemicolon (.inr (.inl rfl)), .inl ⟨hsemicolon, rfl, rfl⟩,
      .nil (Nat.le_succ i)⟩
  refine (expect (by decide)).bind fun j brace hij _ => ?_
  extract_lets rest
  have hrest : ∀ k members, j ≤ k → Reads all k (fun l members' =>
      (if kind = .enumKind then members = [] else Part.FitsMembers all j k members) →
        Part.Row all j k (members.map .member) → Balanced (Token.between all j k) →
          j = i + 1 ∧ all[i]? = some brace ∧ brace.kind = .leftBrace → BodyOfType all i l kind members')
      (rest members) := by
    intro k members hjk
    refine closingBrace.bind fun l _ hkl _ => optionalSemicolon.mono
      fun m members' hlm _ h hclose hmembers hrow hinside hbrace => ?_
    obtain ⟨htail, rfl⟩ := h
    obtain ⟨hclose, rfl⟩ := hclose
    obtain ⟨rfl, hbrace⟩ := hbrace
    have hbraces := fitsBraces_of_balanced ⟨brace, hbrace⟩ hclose hjk hinside htail
    exact ⟨by omega, edge_of_fitsBraces hbraces, .inr ⟨k, hbraces, hmembers⟩, hrow.widen hij (by omega)⟩
  refine .ite (fun henum => ?_) fun hother => ?_
  · refine (skipUntil _).bind fun k _ hjk _ =>
      (pure (Q := fun l members => l = k ∧ members = []) ⟨rfl, rfl⟩).bind
      fun l members hkl _ => (hrest l members (by omega)).mono fun m _ _ _ h hmembers huntil hbrace => ?_
    obtain ⟨rfl, rfl⟩ := hmembers
    exact h (by rw [if_pos henum]) (.nil hjk) (Skip.balanced_untilLength huntil) hbrace
  · refine ((typeBody ordered htypeDecl typeName).both (Even.typeBody hopens typeName j)).bind
      fun k members hjk _ => (hrest k members hjk).mono fun l _ _ _ h hbody hbrace => ?_
    have hmembers := hbody.1 (hbrace.1 ▸ .of_kindAt ⟨brace, hbrace.2⟩ (.inl rfl))
    exact h (by rw [if_neg hother]; exact hmembers.fits) hmembers.row hbody.2 hbrace

include hopens in
theorem typeDeclOf (head : MemberHead) (n : Nat) :
    Reads all n (TypeAt all n head) (typeDeclOf typeDecl head) := by
  refine newDeclId.bind fun n' id hn _ => typeKind.bind fun j kind hnj _ => ident.bind fun k name hjk _ =>
    typeParams.bind fun l params hkl _ => skipBases.bind fun l' _ hl _ =>
      (typeMembers ordered htypeDecl hopens kind name.name).bind fun m members hlm _ =>
        (spanFrom ordered _).bind fun o span _ _ => .pure ?_
  rintro ⟨rfl, hspan⟩ hbody hbases hparams ⟨rfl, t, ht, hidentifier, rfl⟩ hkind rfl i hin hstart hhead
  have hlt := (List.getElem?_eq_some_iff.1 ht).1
  have hlt' := hbody.lt
  have hclear := hparams.trans hbases
  refine .intro (hspan i (i + 1) (hhead.start (by omega)) (by omega)) ⟨hstart, hbody.edge, n', j, l',
    hhead.fits, hkind (by omega), ⟨t, ht, hidentifier⟩, .single ht, ?_, hbody.fits⟩ fun list hlist => ?_
  · rcases hbody.fits with hsemicolon | ⟨e, hbraces, -⟩
    · exact hclear.stop hsemicolon.1 (by simp)
    · exact hclear.stop hbraces.block.brace (by simp)
  · rcases List.mem_cons.1 hlist with rfl | hlist
    · exact hhead.attributes.widen (Nat.le_refl i) (by omega)
    · obtain rfl := List.mem_singleton.1 hlist
      exact hbody.row.widen (by omega) (Nat.le_refl _)

end

theorem typeDecl (head : MemberHead) (n : Nat) : Reads all n (TypeAt all n head) (typeDecl head) := by
  -- that the braces of a type make a group is known only if those of the types inside it do
  refine Reads.mono (.fix (Q := fun head n j d => TypeAt all n head j d ∧
    (Even.PlainAt all n → openBehind? 0 (Token.between all n j) = some 0))
    (fun inner hinner head n => ?_) head n) fun _ _ _ _ h => h.1
  have hplaced : ∀ head n, Reads all n (TypeAt all n head) (inner head) := fun head n =>
    (hinner head n).mono fun _ _ _ _ h => h.1
  have hopens : ∀ head n, Even.PlainAt all n → Opens all n 0 0 (inner head) := fun head n hplain =>
    (hinner head n).mono fun _ _ _ _ h => h.2 hplain
  by_cases hplain : Even.PlainAt all n
  · exact ((typeDeclOf ordered hplaced hopens head n).both (Even.typeDeclOf hopens head hplain)).mono
      fun _ _ _ _ h => ⟨h.1, fun _ => h.2⟩
  · exact (typeDeclOf ordered hplaced hopens head n).mono fun _ _ _ _ h => ⟨h, fun h' => absurd h' hplain⟩

/-- A type declaration stands from edge to edge, if it is kept. -/
theorem namespaceType : Reads all i (fun j d? => Token.Edge all i →
    Token.Edge all j ∧ Part.Row all i j (d?.toList.map .type)) namespaceType := by
  refine (memberHead ordered).bind fun m head him _ => .get fun s _ => .ite (fun _ => ?_) fun _ =>
    .ite (fun _ => ?_) fun _ => failAt _
  · refine (typeDecl ordered head m).map fun j d _ _ hd hhead hedge => ?_
    have hat := hd i him hedge hhead
    exact ⟨hat.fits.2.1, hat.row⟩
  · refine (skipUntil _).bind fun j _ hmj _ => (expect (by decide)).bind fun k semicolon _ _ => .pure ?_
    rintro ⟨rfl, hsemicolon⟩ - - -
    exact ⟨.of_kindAt ⟨semicolon, hsemicolon⟩ (.inr (.inl rfl)), .nil (by omega)⟩

/-! ### Namespaces -/

omit ordered in
theorem eatWord? (word : String) :
    Reads all i (fun j t? => if t?.isSome then KindAt all i .identifier ∧ j = i + 1 else j = i)
      (eatWord? word) := by
  refine .get fun s hs => .ite (fun h => ?_) fun _ => .pure rfl
  rw [ParserState.checkWord, Bool.and_eq_true, decide_eq_true_eq] at h
  have hat : KindAt all i .identifier := h.1 ▸ hs.current.kindAt (by rw [h.1]; decide)
  exact advance.map fun _ _ _ _ h => ⟨hat, h.2 hat.lt⟩

omit ordered in
theorem usingKind : Reads all i (Part.FitsUsingKind all i) usingKind := by
  refine .get fun s hs => .ite (fun h => ?_) fun _ => .ite (fun h => ?_) fun _ => .pure rfl
  · rw [Bool.and_eq_true, decide_eq_true_eq] at h
    have hat : KindAt all i .modifier := h.1 ▸ hs.current.kindAt (by rw [h.1]; decide)
    exact advance.bind fun _ _ _ _ => .pure fun h => ⟨hat, h.2 hat.lt⟩
  · rw [Bool.and_eq_true, decide_eq_true_eq] at h
    have hequal : KindAt all (i + 1) .equal := h.2 ▸ (hs.ahead 1).kindAt (by rw [h.2]; decide)
    refine ident.bind fun j name _ _ => advance.bind fun k _ _ _ => .pure ?_
    rintro ⟨-, hk⟩ ⟨rfl, t, ht, -, rfl⟩
    exact ⟨.single ht, hequal, hk hequal.lt⟩

theorem usingDirective : Reads all i (fun j d => Token.Edge all i → Part.At all i j (.directive d))
    usingDirective := by
  refine .peek fun t ht => (eatWord? _).bind fun j word? hij _ =>
    (expect (by decide)).bind fun k keyword _ _ => usingKind.bind fun l kind hkl _ =>
      (type ordered l).bind fun m target hlm _ => (expect (by decide)).bind fun n semicolon _ _ =>
        (spanFrom ordered _).bind fun o span _ hm => .pure ?_
  rintro ⟨rfl, hspan⟩ ⟨rfl, hsemicolon⟩ htarget hkind ⟨rfl, hkeyword⟩ hglobal hedge
  refine .around rfl (hspan i (i + 1) (.single (ht.of_lt (by omega))) (by omega)) ⟨hedge,
    .of_kindAt ⟨semicolon, hsemicolon⟩ (.inr (.inl rfl)), j, l, hglobal, ⟨keyword, hkeyword⟩, hkind,
    htarget.place, ⟨semicolon, hsemicolon⟩⟩ htarget (by omega) (Nat.le_succ m)

/-- What a file or a namespace holds stands between two numbers of tokens. -/
structure BodyAt (all : List Token) (i j : Nat) (body : NamespaceBody) : Prop where
  usings : Part.Row all i j (body.usings.map .directive)
  attributes : Part.Row all i j (body.attributes.map .attributeList)
  members : Part.Row all i j (body.members.map .ofNamespaceMember)

omit ordered in
theorem BodyAt.empty (h : i ≤ j) : BodyAt all i j .empty := ⟨.nil h, .nil h, .nil h⟩

omit ordered in
theorem BodyAt.widen {a b : Nat} {body : NamespaceBody} (h : BodyAt all a b body) (hia : i ≤ a)
    (hbj : b ≤ j) : BodyAt all i j body :=
  ⟨h.usings.widen hia hbj, h.attributes.widen hia hbj, h.members.widen hia hbj⟩

omit ordered in
theorem BodyAt.append {a b : NamespaceBody} (ha : BodyAt all i k a) (hb : BodyAt all k j b) :
    BodyAt all i j (a.append b) := by
  refine ⟨?_, ?_, ?_⟩
  · rw [NamespaceBody.append, List.map_append]
    exact ha.usings.append hb.usings
  · rw [NamespaceBody.append, List.map_append]
    exact ha.attributes.append hb.attributes
  · rw [NamespaceBody.append, List.map_append]
    exact ha.members.append hb.members

section

variable {space : Parser NamespaceDecl}
  (hspace : ∀ i, Reads all i (fun j d => Token.Edge all i → Part.At all i j (.space d)) space)
include hspace

theorem namespaceItem : Reads all i (fun j body => Token.Edge all i → Token.Edge all j ∧ BodyAt all i j body)
    (namespaceItem space) := by
  refine .get fun s _ => .ite (fun _ => ?_) fun _ => .ite (fun _ => ?_) fun _ =>
    .ite (fun _ => ?_) fun _ => .ite (fun _ => ?_) fun _ => ?_
  · refine (usingDirective ordered).bind fun j d hij _ => .pure fun hd hedge => ?_
    have hat := hd hedge
    exact ⟨hat.fits.2.1, hat.row, .nil hij, .nil hij⟩
  · refine (attributeList ordered).bind fun j list hij _ => .pure fun hat _ => ?_
    exact ⟨.of_kindAt hat.fits.2.1 (.inr (.inr rfl)), .nil hij, hat.row, .nil hij⟩
  · refine (hspace i).bind fun j d hij _ => .pure fun hd hedge => ?_
    have hat := hd hedge
    exact ⟨hat.fits.2.1, .nil hij, .nil hij, hat.row⟩
  · exact advance.bind fun _ _ _ _ => throw
  · refine (namespaceType ordered).bind fun j d? hij _ => .pure fun hd hedge => ?_
    obtain ⟨hend, hrow⟩ := hd hedge
    refine ⟨hend, .nil hij, .nil hij, ?_⟩
    dsimp only
    rw [List.map_map]
    exact hrow

/-- A further item of a file or a namespace.  Without a brace to come there are items up to the end. -/
def NextItem (all : List Token) (braced : Bool) (i j : Nat) : Option NamespaceBody → Prop
  | none => j = i ∧ (braced = false → all.length ≤ i)
  | some body => Token.Edge all i → Token.Edge all j ∧ BodyAt all i j body

omit ordered hspace in
/-- Items stand one behind another from edge to edge. -/
theorem Chain.items {parts : List NamespaceBody} {braced : Bool} (h : Chain (NextItem all braced) i j parts)
    (hedge : Token.Edge all i) :
    (Token.Edge all j ∧ (braced = false → all.length ≤ j)) ∧ BodyAt all i j (.concat parts) := by
  induction h with
  | done le last =>
      obtain ⟨rfl, hend⟩ := last
      exact ⟨⟨hedge, hend⟩, .empty le⟩
  | more _ first _ ih =>
      obtain ⟨hnext, hfirst⟩ := first hedge
      obtain ⟨hend, hrest⟩ := ih hnext
      exact ⟨hend, hfirst.append hrest⟩

theorem namespaceBody (braced : Bool) : Reads all i (fun j body => Token.Edge all i →
    (Token.Edge all j ∧ (braced = false → all.length ≤ j)) ∧ BodyAt all i j body)
      (namespaceBody space braced) := by
  refine (many (Q := NextItem all braced) (fun n => ?_) i).bind fun j parts _ _ => .pure fun h => h.items
  refine .atEnd_of fun atEnd hend => .check (by decide) fun atBrace _ =>
    .ite (fun h => .pure ⟨rfl, ?_⟩) fun _ => ?_
  · rintro rfl
    exact hend (by simpa using h)
  · exact (recovering .empty (namespaceItem ordered hspace)).map (g := some) (R := NextItem all braced n)
      fun _ _ _ _ h => h

omit hspace ordered in
/-- A further segment of the name of a namespace. -/
def NextName (all : List Token) (i j : Nat) : Option Ident → Prop
  | none => j = i
  | some name => KindAt all i .dot ∧ j = i + 1 + 1 ∧ Span.Over all (i + 1) j name.span

omit hspace ordered in
theorem nextName : Reads all i (NextName all i) (Parser.whenever (Parser.eat .dot) Parser.ident) := by
  refine whenever_eat (by decide) (fun hdot => ident.mono fun j name _ _ hname => ?_) rfl
  obtain ⟨rfl, t, ht, -, rfl⟩ := hname
  exact ⟨hdot, rfl, .single ht⟩

omit hspace in
/-- The end of a namespace declaration with what it holds. -/
theorem namespaceEnd (keyword : Token) (names : List Ident) (fileScoped : Bool) (body : NamespaceBody)
    {m : Nat} :
    Reads all m (fun n d => ∀ i, i < m → all[i]? = some keyword → keyword.kind = .namespaceKeyword →
      (∃ k, Part.Listed all .dot (fun a b (x : Ident) => b = a + 1 ∧ Span.Over all a b x.span)
        (i + 1) k names ∧
        if fileScoped then KindAt all k .semicolon ∧ m = all.length else ∃ l, Part.FitsBraces all k l m) →
      Token.Edge all i → Token.Edge all m → BodyAt all (i + 1) m body → Part.At all i n (.space d))
      (do return ⟨names, fileScoped, body.usings, body.members, ← Parser.spanFrom keyword.span⟩) := by
  refine (spanFrom ordered _).bind fun n span _ _ => .pure ?_
  rintro ⟨rfl, hspan⟩ i hlt hkeyword hkind hfits hedge hend hbody
  refine .intro (hspan i (i + 1) (.single hkeyword) (by omega))
    ⟨hedge, hend, ⟨keyword, hkeyword, hkind⟩, hfits⟩ fun list hlist => ?_
  rcases List.mem_cons.1 hlist with rfl | hlist
  · exact hbody.usings.widen (by omega) (Nat.le_refl _)
  · obtain rfl := List.mem_singleton.1 hlist
    exact hbody.members.widen (by omega) (Nat.le_refl _)

variable (hopens : Even all space)
include hopens

theorem namespaceDeclOf : Reads all i (fun j d => Token.Edge all i → Part.At all i j (.space d))
    (namespaceDeclOf space) := by
  refine (expect (by decide)).bind fun j keyword hij _ => ident.bind fun k first hjk _ =>
    (many (fun _ => nextName) k).bind fun l more hkl _ => ?_
  have hnames : j = i + 1 → (k = j + 1 ∧ ∃ t, all[j]? = some t ∧ t.kind = .identifier ∧
      first = ⟨t.name, t.span⟩) → Chain (NextName all) k l more →
        Part.Listed all .dot (fun a b (x : Ident) => b = a + 1 ∧ Span.Over all a b x.span) (i + 1) l
          (first :: more) := by
    rintro rfl ⟨rfl, t, ht, -, rfl⟩ hmore
    exact .ofChain ⟨rfl, .single ht⟩ hmore (fun _ _ _ h => h) fun _ _ h => .inl h
  refine .eat (by decide) (fun hsemicolon => .ite (fun _ => ?_) (absurd rfl)) (.ite nofun fun _ => ?_)
  · refine (namespaceBody ordered hspace false).bind fun m body hlm hm =>
      (namespaceEnd ordered keyword (first :: more) true body).mono
        fun n d _ _ hdone hbody hmore hfirst hkeyword hedge => ?_
    obtain ⟨⟨hend, hlength⟩, hat⟩ := hbody (.of_kindAt hsemicolon (.inr (.inl rfl)))
    exact hdone i (by omega) hkeyword.2.1 hkeyword.2.2 ⟨l, hnames hkeyword.1 hfirst hmore, hsemicolon,
      Nat.le_antisymm hm (hlength rfl)⟩ hedge hend (hat.widen (by omega) (Nat.le_refl m))
  · refine (expect (by decide)).bind fun l' brace hl _ => ((namespaceBody ordered hspace true).both
      (Even.namespaceBody hopens true l')).bind fun m body hlm _ => closingBrace.bind fun n _ hmn _ => ?_
    -- the body stands behind its brace; a `;` may follow the closing one
    have hdone : ∀ o, n ≤ o → Reads all o (fun p d =>
        (n = m + 1 →
          KindAt all (m + 1) .semicolon ∧ o = m + 2 ∨ ¬KindAt all (m + 1) .semicolon ∧ o = m + 1) →
        KindAt all m .rightBrace ∧ n = m + 1 →
        (Token.Edge all l' → (Token.Edge all m ∧ (true = false → all.length ≤ m)) ∧ BodyAt all l' m body) ∧
          openBehind? 0 (Token.between all l' m) = some 0 →
        l' = l + 1 ∧ all[l]? = some brace ∧ brace.kind = .leftBrace → Chain (NextName all) k l more →
        (k = j + 1 ∧ ∃ t, all[j]? = some t ∧ t.kind = .identifier ∧ first = ⟨t.name, t.span⟩) →
        j = i + 1 ∧ all[i]? = some keyword ∧ keyword.kind = .namespaceKeyword → Token.Edge all i →
          Part.At all i p (.space d)) (Pure.pure body >>= fun body => do
        return ⟨first :: more, false, body.usings, body.members, ← Parser.spanFrom keyword.span⟩) := by
      intro o hno
      refine (pure (Q := fun p body' => p = o ∧ body' = body) ⟨rfl, rfl⟩).bind fun p body' hop _ =>
        (namespaceEnd ordered keyword (first :: more) false body').mono
          fun q d _ _ h hpair htail hclose hbody hbrace hmore hfirst hkeyword hedge => ?_
      obtain ⟨rfl, rfl⟩ := hpair
      obtain ⟨rfl, hbrace⟩ := hbrace
      obtain ⟨-, hat⟩ := hbody.1 (.of_kindAt ⟨brace, hbrace⟩ (.inl rfl))
      have hbraces := fitsBraces_of_balanced ⟨brace, hbrace⟩ hclose.1 hlm hbody.2 (htail hclose.2)
      exact h i (by omega) hkeyword.2.1 hkeyword.2.2 ⟨l, hnames hkeyword.1 hfirst hmore, m, hbraces⟩ hedge
        (edge_of_fitsBraces hbraces) (hat.widen (by omega) (by omega))
    refine .eat_or (by decide) (fun hsemicolon => ?_) fun hsemicolon => ?_
    · exact (hdone (n + 1) (Nat.le_succ n)).mono fun p d _ _ h => h fun hn =>
        .inl ⟨hn ▸ hsemicolon, by omega⟩
    · exact (hdone n (Nat.le_refl n)).mono fun p d _ _ h => h fun hn => .inr ⟨hn ▸ hsemicolon, hn⟩

end

theorem namespaceDecl (i : Nat) : Reads all i (fun j d => Token.Edge all i → Part.At all i j (.space d))
    namespaceDecl := by
  refine Reads.mono (.fix (Q := fun _ i j d => (Token.Edge all i → Part.At all i j (.space d)) ∧
    openBehind? 0 (Token.between all i j) = some 0) (fun inner hinner _ i => ?_) () i) fun _ _ _ _ h => h.1
  have hplaced : ∀ i, Reads all i (fun j d => Token.Edge all i → Part.At all i j (.space d)) (inner ()) :=
    fun i => (hinner () i).mono fun _ _ _ _ h => h.1
  have hopens : Even all (inner ()) := fun i => (hinner () i).mono fun _ _ _ _ h => h.2
  exact (namespaceDeclOf ordered hplaced hopens).both (Even.namespaceDeclOf hopens i)

/-- What stands in a source stands between its first and its last token. -/
theorem sourceFile : Reads all 0 (fun j file => ∀ list ∈ file.lists, Part.Row all 0 j list) sourceFile := by
  refine .get fun s _ => (namespaceBody ordered (namespaceDecl ordered) false).bind fun j body _ _ =>
    .pure ?_
  intro hbody list hlist
  obtain ⟨-, hat⟩ := hbody (.inl rfl)
  rcases List.mem_cons.1 hlist with rfl | hlist
  · exact hat.usings
  rcases List.mem_cons.1 hlist with rfl | hlist
  · exact hat.attributes
  · obtain rfl := List.mem_singleton.1 hlist
    exact hat.members

end Parser.Reads

namespace SourceFile

variable {source : SourceId} {text : String} {file : SourceFile}

/-- The parts of a source without errors stand among its tokens, list by list. -/
theorem row_of_parse (h : parse source text = .ok file) :
    ∃ j, ∀ list ∈ file.lists, Part.Row (TokenStream.ofText text).tokens 0 j list := by
  obtain ⟨t, hrun, herrors⟩ := exists_of_parse h
  obtain ⟨j, -, -, hrows⟩ :=
    (Parser.Reads.sourceFile (TokenStream.inOrder text) _ (.ofText source text)).of_ok hrun
  exact ⟨j, (hrows herrors).2⟩

end SourceFile

end Graft
