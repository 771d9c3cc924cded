/-
Module: Graft.Proofs.Parser.Members
Purpose: The members of a type stand where their spans say.
Main exports: Parser.Reads.accessors, Parser.Reads.property, Parser.Reads.field, Parser.Reads.memberAfter

A member starts with its attributes and modifiers, which have been read before its production starts.
What it makes of them is known in the end, from where they were read and from the edge before them.
-/
import Graft.Proofs.Parser.Placed

namespace Graft

open Token (KindAt Clear)

variable {all : List Token} {i : Nat}

/-! ### Bodies -/

namespace Skip

/-- A group that starts inside brackets ends with a closing one. -/
theorem closer_of_groupLength? {depth : Nat} {tokens : List Token} {count : Nat}
    (h : groupLength? (depth + 1) tokens = some count) :
    ∃ t, tokens[count - 1]? = some t ∧ t.kind.isCloser = true := by
  induction tokens generalizing depth count with
  | nil => cases h
  | cons t rest ih =>
      rw [groupLength?] at h
      split at h
      · rename_i hdepth
        cases h
        refine ⟨t, rfl, ?_⟩
        unfold depthAfter at hdepth
        split at hdepth
        · cases hdepth
        · split at hdepth
          · assumption
          · cases hdepth
      · rename_i hdepth
        obtain ⟨inner, hinner⟩ := Nat.exists_eq_succ_of_ne_zero hdepth
        obtain ⟨count', hcount, rfl⟩ := Option.map_eq_some_iff.1 h
        rw [hinner] at hcount
        obtain ⟨u, hu, hcloser⟩ := ih hcount
        have hpos := (groupLength?_bounds hcount).1
        refine ⟨u, ?_, hcloser⟩
        rwa [Nat.add_sub_cancel, ← Nat.sub_add_cancel hpos, List.getElem?_cons_succ]

end Skip

/-- Behind a group that was passed declarations may go on. -/
theorem Token.Edge.of_group {j : Nat} (hopener : ∃ kind, KindAt all i kind ∧ kind.isOpener = true)
    (hlt : i < j) (h : Skip.groupLength? 0 (all.drop i) = some (j - i)) : Edge all j := by
  obtain ⟨kind, ⟨t, ht, rfl⟩, hkind⟩ := hopener
  obtain ⟨hi, hdrop⟩ := List.getElem?_eq_some_iff.1 ht
  rw [List.drop_eq_getElem_cons hi, hdrop, Skip.groupLength?, Skip.depthAfter_opener hkind,
    if_neg (Nat.succ_ne_zero _)] at h
  obtain ⟨count, hcount, hlength⟩ := Option.map_eq_some_iff.1 h
  obtain ⟨u, hu, hcloser⟩ := Skip.closer_of_groupLength? hcount
  have hpos := (Skip.groupLength?_bounds hcount).1
  rw [List.getElem?_drop] at hu
  refine .inr ⟨u, ?_, .inr (.inr hcloser)⟩
  rw [← hu]
  congr 1
  omega

namespace Parser.Reads

/-- What is passed up to the body of a member ends before one of these, outside all brackets. -/
abbrev bodyStarts : List TokenKind := [.leftBrace, .semicolon, .arrow]

/-- A body ends with the bracket that closes it or with `;`. -/
theorem skipBody : Reads all i (fun j _ => i < j ∧ Token.Edge all j ∧ Part.FitsBody all i j) skipBody := by
  refine .peek fun t ht => ?_
  extract_lets kind rest
  have hsemicolon : ∀ m u, i ≤ m → Reads all m (fun j _ => j = m + 1 ∧ KindAt all m .semicolon ∧
      Token.Edge all j) (rest u) := by
    refine fun m _ him => (expect (by decide)).bind fun j t _ _ => .pure ?_
    rintro ⟨rfl, ht⟩
    exact ⟨rfl, ⟨t, ht⟩, .of_kindAt ⟨t, ht⟩ (.inr (.inl rfl))⟩
  refine .ite (fun hbrace => skipGroup.mono fun j _ _ _ h => ?_) fun _ => .ite (fun harrow => ?_) fun _ =>
    (hsemicolon i () (Nat.le_refl i)).mono fun j _ _ _ h => ?_
  · have hat := ht.kindAt (by rw [show t.kind = _ from hbrace]; decide)
    rw [show t.kind = _ from hbrace] at hat
    exact ⟨h.1, .of_group ⟨_, hat, rfl⟩ h.1 h.2, .group (.of_group hat h.1 h.2)⟩
  · have hat := ht.kindAt (by rw [show t.kind = _ from harrow]; decide)
    rw [show t.kind = _ from harrow] at hat
    refine advance.bind fun j _ hij _ => (skipUntil _).bind fun k _ hjk _ =>
      (hsemicolon k () (by omega)).mono fun _ _ _ _ h huntil hj => ?_
    obtain rfl := hj.2 hat.lt
    obtain ⟨rfl, hsemicolon, hedge⟩ := h
    exact ⟨by omega, hedge, .arrow ⟨hat, hsemicolon, huntil⟩⟩
  · obtain ⟨rfl, hsemicolon, hedge⟩ := h
    exact ⟨Nat.lt_succ_self i, hedge, .semicolon hsemicolon⟩

variable (ordered : Token.InOrder all)
include ordered

/-- A type is passed by a search for a body. -/
theorem typePassed : Reads all i
    (fun j t => Part.At all i j (.typeSyntax t) ∧ Clear all bodyStarts i j) Parser.type :=
  ((type ordered i).both (of_takes .type (type ordered i))).mono fun _ _ hij hj h =>
    ⟨h.1, .ofType h.2 (by decide) hij hj⟩

/-- A name is passed by a search for a body. -/
theorem namePassed (withArgs : Bool) : Reads all i
    (fun j n => NameAt all i j n ∧ Clear all bodyStarts i j) (Parser.namedType withArgs) :=
  ((namedType ordered withArgs i).both
    (of_takes (.namedTypeOf .type withArgs) (namedType ordered withArgs i))).mono
    fun _ _ hij hj h => ⟨h.1, .ofType h.2 (by decide) hij hj⟩

theorem otherMember {m n : Nat} (head : MemberHead) (hin : i ≤ n) :
    Reads all n (fun j d => Token.Edge all i →
    HeadAt all i m head → Clear all bodyStarts m n → Part.At all i j (.member d)) (otherMember head) := by
  refine (skipUntil _).bind fun j _ hnj _ => skipBody.bind fun k _ hjk hk =>
    (spanFrom ordered _).bind fun l span _ _ => .pure ?_
  rintro ⟨rfl, hspan⟩ ⟨hlt, hedge, hbody⟩ huntil hstart hhead hpassed
  exact .intro (hspan i (i + 1) (hhead.start (by omega)) (by omega))
    ⟨hstart, hedge, m, j, ⟨_, hhead.fits⟩, hpassed.upTo ⟨hnj, huntil⟩, hbody⟩ nofun

/-- What stands before the body of a member: attributes and modifiers, then its type and its name. -/
structure FrontAt (all : List Token) (i m n k : Nat) (head : MemberHead) (type : TypeSyntax)
    (name : NamedType) :
    Prop where
  edge : Token.Edge all i
  le : i ≤ m
  head : HeadAt all i m head
  type : Part.At all m n (.typeSyntax type)
  name : NameAt all n k name

omit ordered in
theorem FrontAt.memberName {m n k : Nat} {head : MemberHead} {type : TypeSyntax} {name : NamedType}
    (h : FrontAt all i m n k head type name) : Part.FitsMemberName all n k (Parser.memberName name) :=
  ⟨name, h.name.1.place, h.name.1.fits, rfl⟩

omit ordered in
theorem FrontAt.lt {m n k : Nat} {head : MemberHead} {type : TypeSyntax} {name : NamedType}
    (h : FrontAt all i m n k head type name) : m < n ∧ n < k := ⟨h.type.place.lt, h.name.1.place.lt⟩

theorem method {m n k : Nat} (head : MemberHead) (type : TypeSyntax) (name : NamedType)
    (hparen : KindAt all k .leftParen) : Reads all k (fun j d => FrontAt all i m n k head type name →
      Part.At all i j (.member d)) (method head type name) := by
  refine skipGroup.bind fun l _ hkl _ => (skipUntil _).bind fun o _ hlo _ => skipBody.bind fun p _ hop _ =>
    (spanFrom ordered _).bind fun q span _ hq => .pure ?_
  rintro ⟨rfl, hspan⟩ ⟨hlt, hedge, hbody⟩ huntil hgroup hfront
  have him := hfront.le
  obtain ⟨hmn, hnk⟩ := hfront.lt
  refine .intro (hspan i (i + 1) (hfront.head.start (by omega)) (by omega)) ⟨hfront.edge, hedge, m, n,
    k, l, o, hfront.head.fits, hfront.type.place, hfront.memberName, ⟨hparen, hgroup.2⟩,
    ⟨hlo, huntil⟩, hbody⟩ fun list hlist => ?_
  rcases List.mem_cons.1 hlist with rfl | hlist
  · exact hfront.head.attributes.widen (Nat.le_refl i) (by omega)
  · obtain rfl := List.mem_singleton.1 hlist
    exact hfront.type.row.widen him (by omega)

/-! ### Properties -/

/-- An arrow and its expression stand before the `;` that ends them. -/
structure ArrowAt (all : List Token) (i j : Nat) (span : Span) : Prop where
  lt : i < j - 1
  arrow : Part.At all i (j - 1) (.arrow span)

theorem arrowBody (harrow : KindAt all i .arrow) : Reads all i (ArrowAt all i) arrowBody := by
  refine advance.bind fun j t hij _ => (skipUntil _).bind fun k _ hjk _ => (spanFrom ordered _).bind
    fun l span _ _ => (expect (by decide)).bind fun n semicolon _ _ => .pure ?_
  rintro ⟨rfl, hsemicolon⟩ ⟨rfl, hspan⟩ huntil ⟨ht, hj⟩
  obtain rfl := hj harrow.lt
  exact ⟨hjk, .intro (hspan i (i + 1) (.single (ht.of_lt harrow.lt)) hjk)
    ⟨harrow, ⟨semicolon, hsemicolon⟩, huntil⟩ nofun⟩

/-- The body of an accessor: `;`, a group of braces, or an arrow. -/
def AccessorBodyAt (all : List Token) (i j : Nat) : AccessorBody → Prop
  | .missing => j = i + 1 ∧ KindAt all i .semicolon
  | .block span => Part.At all i j (.block span)
  | .arrow span => ArrowAt all i j span

theorem accessorBody : Reads all i (AccessorBodyAt all i) accessorBody := by
  refine .peek fun t ht => .ite (fun hbrace => ?_) fun _ => .ite (fun harrow => ?_) fun _ => ?_
  · have hat := ht.kindAt (by rw [hbrace]; decide)
    refine skipGroup.bind fun j _ _ _ => (spanFrom ordered _).bind fun k span _ _ => .pure ?_
    rintro ⟨rfl, hspan⟩ ⟨hlt, hgroup⟩
    exact .intro (hspan i (i + 1) (.single (ht.of_lt hat.lt)) hlt)
      (Part.FitsBlock.of_group (hbrace ▸ hat) hlt hgroup) nofun
  · have hat := ht.kindAt (by rw [harrow]; decide)
    exact (arrowBody ordered (harrow ▸ hat)).map fun _ _ _ _ h => h
  · refine (expect (by decide)).bind fun j semicolon _ _ => .pure ?_
    rintro ⟨rfl, hsemicolon⟩
    exact ⟨rfl, ⟨semicolon, hsemicolon⟩⟩

theorem accessor : Reads all i (fun j a => Part.At all i j (.accessor a)) accessor := by
  refine (memberHead ordered).bind fun m head him _ => ident.bind fun n keyword _ _ => ?_
  split
  · exact throw
  · rename_i kind hkind
    refine (accessorBody ordered).bind fun j body hnj _ => (spanFrom ordered _).bind fun k span _ _ =>
      .pure ?_
    rintro ⟨rfl, hspan⟩ hbody ⟨rfl, t, ht, hidentifier, rfl⟩ hhead
    refine .intro (hspan i (i + 1) (hhead.start (by omega)) (by omega))
      ⟨?_, m, t, him, ⟨_, hhead.fits⟩, ht, hkind, ?_⟩ fun list hlist => ?_
    · rcases hhead.first with rfl | hfirst
      · exact .inr (.inr ⟨t, ht, hidentifier⟩)
      · exact hfirst
    · cases body with
      | missing => exact hbody
      | block span => exact ⟨Part.At.place hbody, Part.At.fits hbody⟩
      | arrow span => exact ⟨hbody.arrow.place, hbody.arrow.fits⟩
    · obtain rfl := List.mem_singleton.1 hlist
      cases body with
      | missing => exact .nil (by omega)
      | block span => exact (Part.At.row hbody).widen (by omega) (Nat.le_refl _)
      | arrow span => exact hbody.arrow.row.widen (by omega) (Nat.sub_le _ 1)

/-- A further accessor, or the closing brace. -/
def NextAccessor (all : List Token) (i j : Nat) : Option AccessorDecl → Prop
  | none => KindAt all i .rightBrace ∧ j = i + 1
  | some a => Part.At all i j (.accessor a)

omit ordered in
/-- Accessors follow one another without a gap up to the closing brace. -/
theorem Chain.accessors {j : Nat} {list : List AccessorDecl} (h : Chain (NextAccessor all) i j list) :
    ∃ m, j = m + 1 ∧ Part.Tiled (Part.AccessorOver all) i m list ∧ KindAt all m .rightBrace := by
  induction h with
  | done _ last =>
      obtain ⟨hbrace, rfl⟩ := last
      exact ⟨_, rfl, .nil, hbrace⟩
  | more _ first _ ih =>
      obtain ⟨m, hm, htiled, hbrace⟩ := ih
      exact ⟨m, hm, .cons ⟨first.place, first.fits⟩ htiled, hbrace⟩

/-- Accessors between the braces around them, the last of which is the token before number `j`. -/
structure AccessorsAt (all : List Token) (i j : Nat) (list : List AccessorDecl) : Prop where
  tiled : ∃ m, j = m + 1 ∧ i < j ∧ KindAt all i .leftBrace ∧
    Part.Tiled (Part.AccessorOver all) (i + 1) m list ∧ KindAt all m .rightBrace
  row : Part.Row all i j (list.map .accessor)

theorem accessors : Reads all i (AccessorsAt all i) accessors := by
  refine (expect (by decide)).bind fun j brace _ _ => (many (Q := NextAccessor all) (fun k => ?_) j).mono
    fun k list hjk _ hlist => ?_
  · exact .eat (by decide) (fun hbrace => .ite (fun _ => .pure ⟨hbrace, rfl⟩) (absurd rfl))
      (.ite nofun fun _ => (accessor ordered).map fun _ _ _ _ h => h)
  · rintro ⟨rfl, hbrace⟩
    obtain ⟨m, rfl, htiled, hclose⟩ := hlist.accessors
    exact ⟨⟨m, rfl, hjk, ⟨brace, hbrace⟩, htiled, hclose⟩,
      (hlist.row fun a b _ h => ⟨a, b, Nat.le_refl a, Nat.le_refl b, h⟩).widen (Nat.le_succ i)
      (Nat.le_refl _)⟩

/-- The body of a property and the value behind it. -/
structure PropertyBodyAt (all : List Token) (i j : Nat) (body : PropertyBody) (value? : Option Expr) :
    Prop where
  lt : i < j
  edge : Token.Edge all j
  fits : Part.FitsPropertyBody all i j value? body
  body : Part.Row all i j (Part.ofPropertyBody body)
  value : Part.Row all i j (value?.toList.map .expr)

theorem property {m n k : Nat} (head : MemberHead) (type : TypeSyntax) (name : NamedType) :
    Reads all k (fun j d => FrontAt all i m n k head type name → Part.At all i j (.member d))
      (property head type name) := by
  refine .check (by decide) fun isArrow harrow => ?_
  extract_lets rest
  have hrest : ∀ l body value?, k ≤ l → Reads all l (fun j d => PropertyBodyAt all k l body value? →
      FrontAt all i m n k head type name → Part.At all i j (.member d)) (rest (body, value?)) := by
    intro l body value? hkl
    refine (spanFrom ordered _).bind fun o span _ _ => .pure ?_
    rintro ⟨rfl, hspan⟩ hbody hfront
    have him := hfront.le
    have hlt := hbody.lt
    obtain ⟨hmn, hnk⟩ := hfront.lt
    refine .intro (hspan i (i + 1) (hfront.head.start (by omega)) (by omega)) ⟨hfront.edge, hbody.edge,
      m, n, k, hfront.head.fits, hfront.type.place, hfront.memberName, hbody.fits⟩ fun list hlist => ?_
    rcases List.mem_cons.1 hlist with rfl | hlist
    · exact hfront.head.attributes.widen (Nat.le_refl i) (by omega)
    rcases List.mem_cons.1 hlist with rfl | hlist
    · exact hfront.type.row.widen him (by omega)
    rcases List.mem_cons.1 hlist with rfl | hlist
    · exact hbody.body.widen (by omega) (Nat.le_refl _)
    · obtain rfl := List.mem_singleton.1 hlist
      exact hbody.value.widen (by omega) (Nat.le_refl _)
  have hpure : ∀ {l body value?}, k ≤ l → Reads all l (fun j d => PropertyBodyAt all k l body value? →
      FrontAt all i m n k head type name → Part.At all i j (.member d))
      (Pure.pure (body, value?) >>= rest) := by
    intro l body value? hkl
    exact (pure (Q := fun o pair => o = l ∧ pair = (body, value?)) ⟨rfl, rfl⟩).bind fun o pair hlo _ =>
      (hrest o pair.1 pair.2 (by omega)).mono fun j d _ _ h hpair => by rw [hpair.2, hpair.1] at h; exact h
  refine .ite (fun h => ?_) fun _ => ?_
  · refine (arrowBody ordered (harrow h)).bind fun l span _ _ =>
      (hpure (by omega)).mono fun j d _ _ h hat => h ?_
    have hlt := hat.lt
    exact ⟨by omega, .of_kindAt hat.arrow.fits.2.1 (.inr (.inl rfl)), ⟨rfl, hat.arrow.place, hat.arrow.fits⟩,
      hat.arrow.row.widen (Nat.le_refl k) (Nat.sub_le l 1), .nil (by omega)⟩
  · refine (accessors ordered).bind fun l list hkl _ => .eat_or (by decide)
      (fun hequal => .ite (fun _ => ?_) (absurd rfl)) fun hequal => .ite nofun fun _ => ?_
    · refine (value ordered (by simp)).bind fun o e hlo _ =>
        (expect (by decide)).bind fun p semicolon hop _ =>
        (hpure (by omega)).mono fun j d _ _ h hsemicolon hvalue hlist => h ?_
      obtain ⟨rfl, hsemicolon⟩ := hsemicolon
      obtain ⟨q, rfl, hlt, hbrace, htiled, hclose⟩ := hlist.tiled
      exact ⟨by omega, .of_kindAt ⟨semicolon, hsemicolon⟩ (.inr (.inl rfl)),
        ⟨q, hbrace, htiled, hclose, hequal, hvalue.fits, ⟨semicolon, hsemicolon⟩⟩,
        hlist.row.widen (Nat.le_refl k) (by omega), hvalue.1.row.widen (by omega) (Nat.le_succ o)⟩
    · refine (hpure (by omega)).mono fun j d _ _ h hlist => h ?_
      obtain ⟨q, rfl, hlt, hbrace, htiled, hclose⟩ := hlist.tiled
      exact ⟨hlt, .of_kindAt hclose (.inr (.inr rfl)), ⟨q, hbrace, htiled, hclose, rfl, hequal⟩, hlist.row,
        .nil hkl⟩

/-! ### Fields and events -/

/-- A variable with its initial value; a comma or `;` comes next. -/
structure VariableAt (all : List Token) (i j : Nat) (d : VariableDecl) : Prop where
  place : Span.Over all i j d.span
  start : KindAt all i .identifier
  tokens : ∃ k, Part.FitsMemberName all i k d.name ∧ Part.FitsInitializer all k j d.initializer?
  value : Part.Row all i j (d.initializer?.toList.map .expr)

theorem initializer? : Reads all i (fun j value? => Part.FitsInitializer all i j value? ∧
    Part.Row all i j (value?.toList.map .expr)) initializer? :=
  whenever_eat (by decide) (fun hequal => (value ordered (by simp)).mono fun _ _ _ _ h =>
    ⟨⟨hequal, h.fits⟩, h.1.row.widen (Nat.le_succ i) (Nat.le_refl _)⟩) ⟨rfl, .nil (Nat.le_refl i)⟩

theorem variableAfter {k : Nat} (name : Ident) (hki : k ≤ i) : Reads all i (fun j d =>
    KindAt all k .identifier → Part.FitsMemberName all k i name →
      (∃ l, l ≤ i ∧ Span.Over all k l name.span) → VariableAt all k j d) (variableAfter name) := by
  refine (initializer? ordered).bind fun j value? hij _ => (spanFrom ordered _).bind fun l span _ _ =>
    .pure ?_
  rintro ⟨rfl, hspan⟩ hvalue hstart hfits ⟨n, hni, hname⟩
  exact ⟨hspan k n hname (by omega), hstart, ⟨i, hfits, hvalue.1⟩, hvalue.2.widen hki (Nat.le_refl _)⟩

/-- A further variable behind a comma. -/
def NextVariable (all : List Token) (i j : Nat) : Option VariableDecl → Prop
  | none => j = i
  | some d => KindAt all i .comma ∧ VariableAt all (i + 1) j d

theorem nextVariable : Reads all i (NextVariable all i)
    (Parser.whenever (Parser.eat .comma) (do Parser.variableAfter (← Parser.ident))) := by
  refine whenever_eat (by decide) (fun hcomma => ident.bind fun j name hij _ =>
    (variableAfter ordered name hij).mono fun k d _ _ hd => ?_) rfl
  rintro ⟨rfl, t, ht, hidentifier, rfl⟩
  exact ⟨hcomma, hd ⟨t, ht, hidentifier⟩ (.single ht hidentifier) ⟨i + 2, Nat.le_refl _, .single ht⟩⟩

omit ordered in
/-- Variables before the `;` that ends their declaration. -/
theorem row_declarators {j : Nat} {list : List VariableDecl}
    (h : Part.Listed all .comma (VariableAt all) i j list) (hsemicolon : KindAt all j .semicolon) :
    Part.Row all i j (list.map .declarator) := by
  refine h.row fun a b x hx _ hend => ⟨a, b, Nat.le_refl a, Nat.le_refl b, .intro hx.place
    ⟨hx.start, hend.elim (fun h => .inr (h ▸ hsemicolon)) .inl, hx.tokens⟩ fun list hlist => ?_⟩
  obtain rfl := List.mem_singleton.1 hlist
  exact hx.value

theorem field {m n k : Nat} (head : MemberHead) (type : TypeSyntax) (name : NamedType) (hnk : n ≤ k) :
    Reads all k (fun j d => FrontAt all i m n k head type name → Part.At all i j (.member d))
      (field head type name) := by
  refine (variableAfter ordered _ hnk).bind fun l first hkl _ =>
    (many (fun _ => nextVariable ordered) l).bind fun o more _ _ =>
      (expect (by decide)).bind fun p semicolon _ _ => (spanFrom ordered _).bind fun q span _ _ => .pure ?_
  rintro ⟨rfl, hspan⟩ ⟨rfl, hsemicolon⟩ hmore hfirst hfront
  have him := hfront.le
  obtain ⟨hmn, -⟩ := hfront.lt
  have hlisted : Part.Listed all .comma (VariableAt all) n o (first :: more) :=
    .ofChain (hfirst hfront.name.1.fits.1 hfront.memberName hfront.name.2) hmore
      (fun _ _ _ h => h) fun _ _ h => .inl h
  refine .intro (hspan i (i + 1) (hfront.head.start (by omega)) (by omega)) ⟨hfront.edge,
    .of_kindAt ⟨semicolon, hsemicolon⟩ (.inr (.inl rfl)), m, n, hfront.head.fits, hfront.type.place,
    hlisted.mono fun _ _ _ h => h.place, ⟨semicolon, hsemicolon⟩⟩ fun list hlist => ?_
  rcases List.mem_cons.1 hlist with rfl | hlist
  · exact hfront.head.attributes.widen (Nat.le_refl i) (by omega)
  rcases List.mem_cons.1 hlist with rfl | hlist
  · exact hfront.type.row.widen him (by omega)
  · obtain rfl := List.mem_singleton.1 hlist
    exact (row_declarators hlisted ⟨semicolon, hsemicolon⟩).widen (by omega) (Nat.le_succ o)

omit ordered in
/-- An initial value is passed by a search for `;`. -/
theorem clear_initializer {j : Nat} {value? : Option Expr} (h : Part.FitsInitializer all i j value?) :
    Clear all [.semicolon] i j := by
  cases value? with
  | none =>
      obtain rfl : j = i := h
      exact .refl _
  | some value => exact (Clear.token h.1 (by decide) rfl rfl).trans (.of_upTo h.2.2 (by simp))

omit ordered in
/-- What each item of a repetition passes is passed by all of them. -/
theorem Chain.clear {α : Type} {terminators : List TokenKind} {j : Nat} {list : List α}
    (h : Chain (fun i j _ => Clear all terminators i j) i j list) : Clear all terminators i j := by
  induction h with
  | done _ last => exact last
  | more _ first _ ih => exact first.trans ih

/-- A further event behind a comma. -/
theorem nextEvent : Reads all i (fun j _ => Clear all [.semicolon] i j)
    (Parser.whenever (Parser.eat .comma) (do
      let name ← Parser.ident
      let _ ← Parser.initializer?
      return name)) := by
  refine whenever_eat (by decide) (fun hcomma => ident.bind fun j name _ _ => (initializer? ordered).bind
    fun k value? _ _ => .pure ?_) (.refl i)
  rintro ⟨hvalue, -⟩ ⟨rfl, t, ht, hidentifier, -⟩
  exact ((Clear.token hcomma (by decide) rfl rfl).trans
    (.token ⟨t, ht, hidentifier⟩ (by decide) rfl rfl)).trans (clear_initializer hvalue)

theorem event {m : Nat} (head : MemberHead) (him : i ≤ m) : Reads all m
    (fun j d => Token.Edge all i → HeadAt all i m head → Part.At all i j (.member d)) (event head) := by
  refine (expect (by decide)).bind fun j keyword hmj _ => (type ordered j).bind fun k type hjk _ =>
    (namedType ordered false k).bind fun l name hkl _ => .check_iff (by decide) fun braces hbraces => ?_
  extract_lets rest
  have hrest : ∀ n more, l ≤ n → Reads all n (fun o d => Token.Edge all n → Part.FitsEventBody all l n →
      NameAt all k l name → Part.At all j k (.typeSyntax type) →
        j = m + 1 ∧ all[m]? = some keyword ∧ keyword.kind = .eventKeyword → Token.Edge all i →
          HeadAt all i m head → Part.At all i o (.member d)) (rest more) := by
    intro n more hln
    refine (spanFrom ordered _).bind fun o span _ _ => .pure ?_
    rintro ⟨rfl, hspan⟩ hend hbody hname htype ⟨rfl, hkeyword⟩ hstart hhead
    have hlt := htype.place.lt
    refine .intro (hspan i (i + 1) (hhead.start (by omega)) (by omega)) ⟨hstart, hend, m, k, l, hhead.fits,
      ⟨keyword, hkeyword⟩, htype.place, ⟨_, rfl, name, hname.1.place, hname.1.fits, rfl⟩, hbody⟩
      fun list hlist => ?_
    rcases List.mem_cons.1 hlist with rfl | hlist
    · exact hhead.attributes.widen (Nat.le_refl i) (by omega)
    · obtain rfl := List.mem_singleton.1 hlist
      exact htype.row.widen (by omega) (by omega)
  refine .ite (fun h => ?_) fun h => ?_
  · refine skipGroup.bind fun n _ hln _ => (pure (Q := fun o _ => o = n) rfl).bind fun o more hno _ =>
      (hrest o more (by omega)).mono fun p d _ _ h' ho hgroup => ?_
    obtain rfl : o = n := ho
    exact h' (.of_group ⟨_, hbraces.1 h, rfl⟩ hgroup.1 hgroup.2)
      (.inl (.of_group (hbraces.1 h) hgroup.1 hgroup.2))
  · refine (initializer? ordered).bind fun n value? hln _ => (many (fun _ => nextEvent ordered) n).bind
      fun o more hno _ => (expect (by decide)).bind fun p semicolon hop _ =>
        (pure (Q := fun q _ => q = p) rfl).bind fun q names hpq _ =>
          (hrest q names (by omega)).mono fun r d _ _ h' hq hsemicolon hmore hvalue => ?_
    obtain rfl : q = p := hq
    obtain ⟨rfl, hsemicolon⟩ := hsemicolon
    refine h' (.of_kindAt ⟨semicolon, hsemicolon⟩ (.inr (.inl rfl))) (.inr ⟨fun hat => h (hbraces.2 hat), ?_,
      ⟨semicolon, hsemicolon⟩⟩)
    exact ((clear_initializer hvalue.1).trans hmore.clear).stop ⟨semicolon, hsemicolon⟩ (by simp)

/-! ### Members -/

theorem memberNamed {m n : Nat} (head : MemberHead) (type : TypeSyntax) (him : i ≤ m) (hmn : m ≤ n) :
    Reads all n (fun j d => Token.Edge all i → HeadAt all i m head → Part.At all m n (.typeSyntax type) →
      Clear all bodyStarts m n → Part.At all i j (.member d)) (memberNamed head type) := by
  refine (namePassed ordered true).bind fun k name hnk _ => .check (by decide) fun _ _ =>
    .kindAhead 1 fun _ _ => .ite (fun _ => ?_) fun _ => .peek fun t ht => ?_
  · exact (otherMember ordered head (show i ≤ k by omega)).mono fun j d _ _ h hname hstart hhead _ hclear =>
      h hstart hhead (hclear.trans hname.2)
  · split
    · rename_i hkind
      exact (method ordered head type name (hkind ▸ ht.kindAt (by rw [hkind]; decide))).mono
        fun j d _ _ h hname hstart hhead htype _ => h ⟨hstart, him, hhead, htype, hname.1⟩
    · exact (property ordered head type name).mono fun j d _ _ h hname hstart hhead htype _ =>
        h ⟨hstart, him, hhead, htype, hname.1⟩
    · exact (property ordered head type name).mono fun j d _ _ h hname hstart hhead htype _ =>
        h ⟨hstart, him, hhead, htype, hname.1⟩
    · exact (field ordered head type name hnk).mono fun j d _ _ h hname hstart hhead htype _ =>
        h ⟨hstart, him, hhead, htype, hname.1⟩
    · exact (field ordered head type name hnk).mono fun j d _ _ h hname hstart hhead htype _ =>
        h ⟨hstart, him, hhead, htype, hname.1⟩
    · exact (field ordered head type name hnk).mono fun j d _ _ h hname hstart hhead htype _ =>
        h ⟨hstart, him, hhead, htype, hname.1⟩
    · exact failAt _

/-- A member stands between two edges, with what stands before it. -/
theorem memberAfter {m : Nat} (typeName : String) (head : MemberHead) (him : i ≤ m) : Reads all m
    (fun j d => Token.Edge all i → HeadAt all i m head → Part.At all i j (.member d))
    (memberAfter typeName head) := by
  have hother : Reads all m (fun j d => Token.Edge all i → HeadAt all i m head → Part.At all i j (.member d))
      (Parser.otherMember head) :=
    (otherMember ordered head him).mono fun j d _ _ h hstart hhead => h hstart hhead (.refl m)
  refine .get fun s _ => ?_
  split
  · exact event ordered head him
  · exact hother
  · exact hother
  · exact hother
  · exact failAt _
  · exact failAt _
  · refine .ite (fun _ => hother) fun _ => (typePassed ordered).bind fun n type hmn _ => .peek fun t _ => ?_
    have hbehind : Reads all n (fun j d => Part.At all m n (.typeSyntax type) ∧ Clear all bodyStarts m n →
        Token.Edge all i → HeadAt all i m head → Part.At all i j (.member d)) (Parser.otherMember head) :=
      (otherMember ordered head (show i ≤ n by omega)).mono fun j d _ _ h htype hstart hhead =>
        h hstart hhead htype.2
    split
    · exact hbehind
    · exact hbehind
    · exact (memberNamed ordered head type him hmn).mono fun j d _ _ h htype hstart hhead =>
        h hstart hhead htype.1 htype.2
    · exact failExpecting _

end Parser.Reads

end Graft
