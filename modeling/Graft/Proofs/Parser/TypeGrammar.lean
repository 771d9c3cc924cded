/-
Module: Graft.Proofs.Parser.TypeGrammar
Purpose: The grammar of types and dotted names, and that the parser reads exactly its phrases.
Main exports: TypePhrase, Parser.takes_type, Parser.takes_namedType, Parser.consumes_namedType,
  TypePhrase.ofType

A phrase is a list of tokens, told by the classes of these alone.  What the parser passes where it yields a
value is a phrase, and in front of a token that a phrase cannot go on with a phrase is passed as a whole.
-/
import Graft.Proofs.Parser.TypePhrases
import Graft.Proofs.Parser.TypeTokens

namespace Graft

/-! ### Phrases -/

/-- The parts of types and dotted names. -/
inductive TypePart where
  | base
  | suffix
  | suffixes
  | type
  | types
  | element
  | elements
  | args
  | segment (withArgs : Bool)
  | more (withArgs : Bool)
  | name (withArgs : Bool)

/-- Tokens that are a part of a type.  A type has any number of suffixes behind a built-in type, a tuple or a
dotted name; a dotted name may start with an alias, and its segments may have type arguments,
unless these are left out. -/
inductive TypePhrase : TypePart → List Token → Prop where
  | predefined {a : Token} (kind : a.kind = .predefinedType) : TypePhrase .base [a]
  | tuple {opening closing : Token} {u : List Token} (hopening : opening.kind = .leftParen)
      (inside : TypePhrase .elements u) (hclosing : closing.kind = .rightParen) :
      TypePhrase .base (opening :: (u ++ [closing]))
  | named {u : List Token} (h : TypePhrase (.name true) u) : TypePhrase .base u
  | mark {a : Token} (kind : a.kind = .question ∨ a.kind = .star) : TypePhrase .suffix [a]
  | rank {opening closing : Token} {u : List Token} (hopening : opening.kind = .leftBracket)
      (commas : ∀ c ∈ u, c.kind = .comma) (hclosing : closing.kind = .rightBracket) :
      TypePhrase .suffix (opening :: (u ++ [closing]))
  | bare : TypePhrase .suffixes []
  | suffixed {u w : List Token} (first : TypePhrase .suffix u) (later : TypePhrase .suffixes w) :
      TypePhrase .suffixes (u ++ w)
  | type {u w : List Token} (base : TypePhrase .base u) (suffixes : TypePhrase .suffixes w) :
      TypePhrase .type (u ++ w)
  | lastType {u : List Token} (h : TypePhrase .type u) : TypePhrase .types u
  | types {comma : Token} {u w : List Token} (h : TypePhrase .type u) (hcomma : comma.kind = .comma)
      (later : TypePhrase .types w) : TypePhrase .types (u ++ comma :: w)
  | unnamed {u : List Token} (h : TypePhrase .type u) : TypePhrase .element u
  | element {a : Token} {u : List Token} (h : TypePhrase .type u) (kind : a.kind = .identifier) :
      TypePhrase .element (u ++ [a])
  | lastElement {u : List Token} (h : TypePhrase .element u) : TypePhrase .elements u
  | elements {comma : Token} {u w : List Token} (h : TypePhrase .element u) (hcomma : comma.kind = .comma)
      (later : TypePhrase .elements w) : TypePhrase .elements (u ++ comma :: w)
  | unbound {less greater : Token} {u : List Token} (hless : less.kind = .less)
      (commas : ∀ c ∈ u, c.kind = .comma)
      (hgreater : greater.kind = .greater) : TypePhrase .args (less :: (u ++ [greater]))
  | args {less greater : Token} {u : List Token} (hless : less.kind = .less) (inside : TypePhrase .types u)
      (hgreater : greater.kind = .greater) : TypePhrase .args (less :: (u ++ [greater]))
  | simple {a : Token} {withArgs : Bool} (kind : a.kind = .identifier) : TypePhrase (.segment withArgs) [a]
  | generic {a : Token} {u : List Token} (kind : a.kind = .identifier) (h : TypePhrase .args u) :
      TypePhrase (.segment true) (a :: u)
  | done {withArgs : Bool} : TypePhrase (.more withArgs) []
  | dotted {dot : Token} {withArgs : Bool} {u w : List Token} (hdot : dot.kind = .dot)
      (segment : TypePhrase (.segment withArgs) u) (later : TypePhrase (.more withArgs) w) :
      TypePhrase (.more withArgs) (dot :: (u ++ w))
  | unqualified {withArgs : Bool} {u w : List Token} (first : TypePhrase (.segment withArgs) u)
      (later : TypePhrase (.more withArgs) w) : TypePhrase (.name withArgs) (u ++ w)
  | qualified {a colons : Token} {withArgs : Bool} {u w : List Token} (kind : a.kind = .identifier)
      (hcolons : colons.kind = .doubleColon) (first : TypePhrase (.segment withArgs) u)
      (later : TypePhrase (.more withArgs) w) : TypePhrase (.name withArgs) (a :: colons :: (u ++ w))

namespace Parser

variable {α β : Type} {p : Parser α} {s : ParserState} {P R Q : List Token → Prop} {withArgs : Bool}

/-! ### What is passed is a phrase -/

/-- A token of a class, and what comes behind it. -/
def LedBy (kind : TokenKind) (Q : List Token → Prop) (tokens : List Token) : Prop :=
  ∃ t rest, tokens = t :: rest ∧ t.kind = kind ∧ Q rest

/-- Where a token of a class comes it is passed, else nothing is. -/
theorem TakesFrom.eat {kind : TokenKind} (hkind : kind ≠ .endOfFile) {f : Bool → Parser α}
    (found : TakesFrom (s.pass 1) Q (f true)) (missing : TakesFrom s (· = []) (f false)) :
    TakesFrom s (fun u => u = [] ∨ LedBy kind Q u) (eat kind >>= f) := by
  refine Outcome.eat (fun hcheck => ?_) fun _ => missing.mono fun u hu => .inl hu
  obtain ⟨t, hunread, -, ht⟩ := ParserState.exists_of_check hcheck hkind
  refine Outcome.mono found (fun _ v ⟨u, hu, hQ⟩ => ?_) fun _ h => h
  exact ⟨t :: u, by rw [hunread, hu, List.cons_append], .inr ⟨t, u, rfl, ht, hQ⟩⟩

/-- A token of a class is passed, then what follows it. -/
theorem TakesFrom.ledBy {kind : TokenKind} {f : α → Parser β} (hp : TakesFrom s (OneOf kind) p)
    (hf : ∀ a t, p s = .ok a t → TakesFrom t Q (f a)) : TakesFrom s (LedBy kind Q) (p >>= f) :=
  hp.bind hf fun _ v ⟨t, hu, ht⟩ hv => ⟨t, v, by rw [hu]; rfl, ht, hv⟩

/-- Something, and a token of a class behind it. -/
def EndedBy (kind : TokenKind) (Q : List Token → Prop) (tokens : List Token) : Prop :=
  ∃ before t, tokens = before ++ [t] ∧ Q before ∧ t.kind = kind

/-- Something is passed, then a token of a class. -/
theorem TakesFrom.endedBy {kind : TokenKind} {f : α → Parser β} (hp : TakesFrom s Q p)
    (hf : ∀ a t, TakesFrom t (OneOf kind) (f a)) : TakesFrom s (EndedBy kind Q) (p >>= f) :=
  hp.bind (fun a t _ => hf a t) fun u _ hu ⟨t, hv, ht⟩ => ⟨u, t, by rw [hv], hu, ht⟩

/-- What a repetition passes is put together from what its items pass. -/
theorem takes_many {item : Parser (Option α)} (hitem : Takes (fun u => u = [] ∨ P u) item) (nil : R [])
    (cons : ∀ u w, P u → R w → R (u ++ w)) : Takes R (many item) := by
  refine .fix (fun rest hrest _ s =>
    TakesFrom.bind (hitem s) (R := R) (fun a? t _ => ?_) fun u w hu hw => ?_) ()
  · cases a? with
    | none => exact .pure nil
    | some a => exact (hrest () t).last fun _ _ => .pure rfl
  · rcases hu with rfl | hu
    · exact hw
    · exact cons u w hu hw

/-- What a list passes is put together from what its items pass and the commas between them. -/
theorem takes_separated (hp : Takes P p) (last : ∀ u, P u → R u)
    (more : ∀ u comma w, P u → comma.kind = .comma → R w → R (u ++ comma :: w)) : Takes R (separated p) := by
  refine .fix (fun rest hrest _ s => ?_) ()
  refine TakesFrom.bind (hp s) (fun a t _ => TakesFrom.eat (Q := R) (by decide) ?_ ?_) fun u w hu hw => ?_
  · exact .ite (fun _ => (hrest () _).last fun _ _ => .pure rfl) (absurd rfl)
  · exact .ite nofun fun _ => .pure rfl
  · rcases hw with rfl | ⟨comma, w, rfl, hcomma, hw⟩
    · rw [List.append_nil]
      exact last u hu
    · exact more u comma w hu hcomma hw

/-- Any number of commas. -/
theorem takes_commas : Takes (fun u => ∀ c ∈ u, c.kind = .comma) commas := fun s => by
  refine TakesFrom.last (takes_many (P := OneOf .comma) (fun t => TakesFrom.eat? (by decide)) nofun ?_ s)
    fun _ _ => .pure rfl
  rintro _ w ⟨t, rfl, ht⟩ hw
  exact List.forall_mem_cons.2 ⟨ht, hw⟩

theorem takes_typeSuffix (start : Span) :
    Takes (fun u => u = [] ∨ TypePhrase .suffix u) (typeSuffix start) := by
  refine fun s => .get <| .ite (fun h => ?_) fun _ => .ite (fun h => ?_) fun _ => .ite (fun h => ?_) fun _ =>
    .pure (.inl rfl)
  · refine .mono (.last (.advance (by decide) h) fun _ _ => .spanFrom <| .pure rfl) ?_
    exact fun _ ⟨_, hu, ht⟩ => .inr (hu ▸ .mark (.inl ht))
  · refine .mono (.last (.advance (by decide) h) fun _ _ => .spanFrom <| .pure rfl) ?_
    exact fun _ ⟨_, hu, ht⟩ => .inr (hu ▸ .mark (.inr ht))
  · have hcheck : s.check .leftBracket = true := (Bool.and_eq_true_iff.1 h).1
    refine .mono (.ledBy (.advance (by decide) hcheck) fun _ t _ => .endedBy (takes_commas t) fun _ _ =>
      .last (.expect (show TokenKind.rightBracket ≠ .endOfFile by decide)) fun _ _ => .spanFrom <|
        .pure rfl) ?_
    rintro _ ⟨_, _, rfl, hopening, _, _, rfl, hcommas, hclosing⟩
    exact .inr (.rank hopening hcommas hclosing)

section

variable {type : Parser TypeSyntax} (htype : Takes (TypePhrase .type) type)
include htype

theorem takes_types : Takes (TypePhrase .types) (separated type) :=
  takes_separated htype (fun _ => .lastType) fun _ _ _ => .types

theorem takes_typeArgs : Takes (TypePhrase .args) (typeArgs type) := by
  have hclose : ∀ {t : ParserState} {list : List TypeSyntax},
      TakesFrom t (OneOf .greater) (do let _ ← expect .greater; return list) :=
    .last (.expect (by decide)) fun _ _ => .pure rfl
  refine fun s => .mono
    (.ledBy (.expect (by decide)) (Q := fun v => EndedBy .greater (fun u => ∀ c ∈ u, c.kind = .comma) v ∨
    EndedBy .greater (TypePhrase .types) v) fun _ t _ => .check <| .check <|
    .ite (fun _ => ?_) fun _ => ?_) ?_
  · exact .mono (.endedBy (takes_commas t) fun _ _ => hclose) fun _ => .inl
  · exact .mono (.endedBy (takes_types htype t) fun _ _ => hclose) fun _ => .inr
  · rintro _ ⟨_, _, rfl, hless, ⟨_, _, rfl, hinside, hgreater⟩ | ⟨_, _, rfl, hinside, hgreater⟩⟩
    · exact .unbound hless hinside hgreater
    · exact .args hless hinside hgreater

theorem takes_typeSegment : Takes (TypePhrase (.segment withArgs)) (typeSegment type withArgs) := by
  refine fun s => (TakesFrom.ledBy .ident (Q := fun v => v = [] ∨ withArgs = true ∧ TypePhrase .args v)
    fun _ t _ => .check <| .ite (fun h => ?_) fun _ => ?_).mono ?_
  · exact ((takes_typeArgs htype t).mono fun v hv => .inr ⟨(Bool.and_eq_true_iff.1 h).1, hv⟩).last fun _ _ =>
      .pure rfl
  · exact TakesFrom.last (.pure (.inl rfl)) fun _ _ => .pure rfl
  · rintro _ ⟨t, v, rfl, ht, rfl | ⟨rfl, hv⟩⟩
    · exact .simple ht
    · exact .generic ht hv

theorem takes_namedTypeOf : Takes (TypePhrase (.name withArgs)) (namedTypeOf type withArgs) := by
  refine fun s => .peek <| .check <| .kindAhead ?_
  extract_lets rest
  have hrest : ∀ qualifier? t, TakesFrom t (fun v => ∃ u w, v = u ++ w ∧ TypePhrase (.segment withArgs) u ∧
      TypePhrase (.more withArgs) w) (rest qualifier?) := by
    refine fun qualifier? t => (takes_typeSegment htype t).bind (fun first u _ => TakesFrom.last
      (takes_many (P := LedBy .dot (TypePhrase (.segment withArgs))) (fun v => ?_) .done ?_ u)
      fun _ _ => .spanFrom <| .pure rfl) fun u w hu hw => ⟨u, w, rfl, hu, hw⟩
    · refine .check <| .kindAhead <| .ite (fun h => ?_) fun _ => .pure (.inl rfl)
      exact (TakesFrom.ledBy (.advance (by decide) (Bool.and_eq_true_iff.1 h).1)
        fun _ x _ => .map (takes_typeSegment htype x)).mono fun _ => .inr
    · rintro _ w ⟨dot, u, rfl, hdot, hu⟩ hw
      exact .dotted hdot hu hw
  refine .ite (fun h => ?_) fun _ => ?_
  · rw [Bool.and_eq_true, decide_eq_true_eq] at h
    refine .mono (.ledBy .ident (Q := LedBy .doubleColon fun v => ∃ u w, v = u ++ w ∧
      TypePhrase (.segment withArgs) u ∧ TypePhrase (.more withArgs) w) fun name t hname => ?_) ?_
    · -- behind the name stands the token that was looked at
      have hcolon : t.check .doubleColon = true := by
        rw [ident_eq (kind_of_check h.1)] at hname
        cases hname
        rw [ParserState.check, current_pass, h.2]
        rfl
      exact .ledBy (.advance (by decide) hcolon) fun _ u _ => hrest _ u
    · rintro _ ⟨a, _, rfl, ha, colons, _, rfl, hcolons, u, w, rfl, hu, hw⟩
      exact .qualified ha hcolons hu hw
  · refine .mono (hrest none s) ?_
    rintro _ ⟨u, w, rfl, hu, hw⟩
    exact .unqualified hu hw

theorem takes_tupleElement : Takes (TypePhrase .element) (do
    let type ← type
    let name? ← whenever (check .identifier) ident
    return (⟨type, name?⟩ : TupleElement TypeSyntax Ident)) := by
  refine fun s => (htype s).bind (R := fun v => v = [] ∨ OneOf .identifier v) (fun _ t _ => ?_) ?_
  · exact .last (.check <| .ite (fun _ => .map (.mono .ident fun _ => .inr)) fun _ => .pure (.inl rfl))
      fun _ _ => .pure rfl
  · rintro u _ hu (rfl | ⟨a, rfl, ha⟩)
    · rw [List.append_nil]
      exact .unnamed hu
    · exact .element hu ha

theorem takes_baseType : Takes (TypePhrase .base) (baseType type) := by
  refine fun s => .peek ?_
  split
  · rename_i hkind
    refine .mono (.last (.advance (by decide) (decide_eq_true hkind)) fun _ _ => .pure rfl) ?_
    exact fun _ ⟨_, hu, ht⟩ => hu ▸ .predefined ht
  · refine .mono (.ledBy (.expect (by decide)) fun _ t _ =>
      .endedBy (Q := TypePhrase .elements) ?_ fun _ _ =>
      .last (.expect (show TokenKind.rightParen ≠ .endOfFile by decide)) fun _ _ => .spanFrom <|
        .pure rfl) ?_
    · exact takes_separated (takes_tupleElement htype) (fun _ => .lastElement) (fun _ _ _ => .elements) t
    · rintro _ ⟨_, _, rfl, hopening, _, _, rfl, hinside, hclosing⟩
      exact .tuple hopening hinside hclosing
  · exact .map (.mono (takes_namedTypeOf htype s) fun _ => .named)
  · exact .failAt

theorem takes_typeOf : Takes (TypePhrase .type) (typeOf type) := fun s =>
  (takes_baseType htype s).bind (fun _ t _ => TakesFrom.last (takes_many (takes_typeSuffix _) .bare
    (fun _ _ => .suffixed) t) fun _ _ => .pure rfl) fun _ _ => .type

end

/-- What a type is read from is the phrase of a type. -/
theorem takes_type : Takes (TypePhrase .type) type := .fix (fun _ hinner _ => takes_typeOf (hinner ())) ()

/-- What a dotted name is read from is the phrase of a dotted name. -/
theorem takes_namedType (withArgs : Bool) : Takes (TypePhrase (.name withArgs)) (namedType withArgs) :=
  takes_namedTypeOf takes_type

/-! ### Phrases are read -/

/-- For a phrase there is a tree of the part. -/
def HasTree : TypePart → List Token → Prop
  | .base, u | .type, u => ∃ type, Begins type u
  | .suffix, w | .suffixes, w => ∀ type u, Begins type u → ∃ type', Begins type' (u ++ w)
  | .types, u => ∃ types, Listed .comma Begins types u
  | .element, u => ∃ element, ElementTokens element u
  | .elements, u => ∃ elements, Listed .comma ElementTokens elements u
  | .args, w => ∀ a : Token, a.kind = .identifier → ∃ segment, SegmentTokens true segment (a :: w)
  | .segment withArgs, u => ∃ segment, SegmentTokens withArgs segment u
  | .more withArgs, w => ∀ segment u, SegmentTokens withArgs segment u →
      ∃ segments, SegmentsTokens withArgs segments (u ++ w)
  | .name withArgs, u => ∃ name, NameTokens withArgs name u

theorem hasTree {part : TypePart} {u : List Token} (h : TypePhrase part u) : HasTree part u := by
  induction h with
  | predefined kind => exact ⟨.predefined _ default, begins_predefined (Prod.ext kind rfl)⟩
  | tuple hopening _ hclosing ih =>
      obtain ⟨elements, helements⟩ := ih
      exact ⟨.tuple elements default, begins_tuple hopening helements hclosing⟩
  | named _ ih =>
      obtain ⟨name, hname⟩ := ih
      exact ⟨.named name, begins_named hname⟩
  | mark kind =>
      intro type u hbegins
      rcases kind with kind | kind
      · exact ⟨.nullable type default, begins_nullable hbegins kind⟩
      · exact ⟨.pointer type default, begins_pointer hbegins kind⟩
  | rank hopening commas hclosing =>
      exact fun type u hbegins => ⟨.array type _ default, begins_array hbegins hopening commas hclosing rfl⟩
  | bare => exact fun type u hbegins => ⟨type, by rwa [List.append_nil]⟩
  | suffixed _ _ ih ih' =>
      intro type u hbegins
      obtain ⟨type', hbegins'⟩ := ih type u hbegins
      rw [← List.append_assoc]
      exact ih' type' _ hbegins'
  | type _ _ ih ih' =>
      obtain ⟨type, hbegins⟩ := ih
      exact ih' type _ hbegins
  | lastType _ ih =>
      obtain ⟨type, hbegins⟩ := ih
      exact ⟨[type], .last hbegins⟩
  | types _ hcomma _ ih ih' =>
      obtain ⟨type, hbegins⟩ := ih
      obtain ⟨types, hlisted⟩ := ih'
      exact ⟨type :: types, .more hbegins hcomma hlisted⟩
  | unnamed _ ih =>
      obtain ⟨type, hbegins⟩ := ih
      exact ⟨⟨type, none⟩, .plain hbegins⟩
  | element _ kind ih =>
      obtain ⟨type, hbegins⟩ := ih
      exact ⟨⟨type, some ⟨_, default⟩⟩, .named hbegins kind rfl⟩
  | lastElement _ ih =>
      obtain ⟨element, helement⟩ := ih
      exact ⟨[element], .last helement⟩
  | elements _ hcomma _ ih ih' =>
      obtain ⟨element, helement⟩ := ih
      obtain ⟨elements, hlisted⟩ := ih'
      exact ⟨element :: elements, .more helement hcomma hlisted⟩
  | unbound hless commas hgreater =>
      exact fun a kind => ⟨⟨⟨_, default⟩, []⟩, .unbound kind rfl hless commas hgreater⟩
  | args hless _ hgreater ih =>
      obtain ⟨types, hlisted⟩ := ih
      exact fun a kind => ⟨⟨⟨_, default⟩, types⟩, .generic kind rfl hless hlisted hgreater⟩
  | simple kind => exact ⟨⟨⟨_, default⟩, []⟩, .plain kind rfl⟩
  | generic kind _ ih => exact ih _ kind
  | done => exact fun segment u hsegment => ⟨[segment], by rw [List.append_nil]; exact .last hsegment⟩
  | dotted hdot _ _ ih ih' =>
      intro segment u hsegment
      obtain ⟨next, hnext⟩ := ih
      obtain ⟨segments, hsegments⟩ := ih' next _ hnext
      exact ⟨segment :: segments, .more hsegment hdot hsegments⟩
  | unqualified _ _ ih ih' =>
      obtain ⟨segment, hsegment⟩ := ih
      obtain ⟨segments, hsegments⟩ := ih' segment _ hsegment
      exact ⟨⟨none, segments, default⟩, .plain hsegments⟩
  | qualified kind hcolons _ _ ih ih' =>
      obtain ⟨segment, hsegment⟩ := ih
      obtain ⟨segments, hsegments⟩ := ih' segment _ hsegment
      exact ⟨⟨some ⟨_, default⟩, segments, default⟩, .qualified kind rfl hcolons hsegments⟩

/-- The phrase of a dotted name is read as a whole. -/
theorem consumes_namedType {withArgs : Bool} {u : List Token} (h : TypePhrase (.name withArgs) u) :
    Consumes nameGoesOn (fun _ => True) (namedType withArgs) u := by
  obtain ⟨name, hname⟩ := hasTree h
  intro s v hunread hnext
  obtain ⟨found, hfound, -⟩ := hname.consumes s v hunread hnext
  exact ⟨found, hfound, trivial⟩

end Parser

/-! ### Brackets -/

namespace TypePhrase

/-- A name without type arguments is one identifier, or goes on with a point or behind an alias. -/
theorem starts_plainName {u : List Token} (h : TypePhrase (.name false) u) :
    ∃ a rest, u = a :: rest ∧ a.kind = .identifier ∧ ∀ b ∈ rest.head?, b.kind = .dot ∨
    b.kind = .doubleColon := by
  cases h with
  | unqualified first later =>
      cases first with
      | simple kind =>
          refine ⟨_, _, rfl, kind, ?_⟩
          cases later with
          | done => nofun
          | dotted hdot => exact fun b hb => .inl (Option.some.inj hb ▸ hdot)
  | qualified kind hcolons => exact ⟨_, _, rfl, kind, fun b hb => .inr (Option.some.inj hb ▸ hcolons)⟩

/-- A name without type arguments is made of identifiers, points and colons. -/
theorem kinds_plainName {u : List Token} (h : TypePhrase (.name false) u) :
    ∀ a ∈ u, a.kind ∈ [TokenKind.identifier, .dot, .doubleColon] := by
  have hmore : ∀ {part : TypePart} {w : List Token}, TypePhrase part w → part = .segment false ∨
      part = .more false → ∀ a ∈ w, a.kind ∈ [TokenKind.identifier, .dot, .doubleColon] := by
    intro part w hw hpart
    induction hw with
    | simple kind => simpa using .inl kind
    | done => nofun
    | dotted hdot _ _ ih ih' =>
        obtain rfl : _ = false := by simpa using hpart
        refine List.forall_mem_cons.2 ⟨by simp [hdot], ?_⟩
        exact List.forall_mem_append.2 ⟨ih (.inl rfl), ih' (.inr rfl)⟩
    | _ => simp at hpart
  cases h with
  | unqualified first later =>
      exact List.forall_mem_append.2 ⟨hmore first (.inl rfl), hmore later (.inr rfl)⟩
  | qualified kind hcolons first later =>
      refine List.forall_mem_cons.2 ⟨by simp [kind], List.forall_mem_cons.2 ⟨by simp [hcolons], ?_⟩⟩
      exact List.forall_mem_append.2 ⟨hmore first (.inl rfl), hmore later (.inr rfl)⟩

/-- A token that types are written with and that is no bracket, before others. -/
theorem ofType_cons {a : Token} {u : List Token} {kind : TokenKind} (h : a.kind = kind) (hu : Token.OfType u)
    (hkind : kind.isOfType = true ∧ kind.isOpener = false ∧ kind.isCloser = false := by decide) :
    Token.OfType (a :: u) := by
  subst h
  exact .append (.single hkind.1 hkind.2.1 hkind.2.2) hu

theorem ofType_commas {u : List Token} (h : ∀ c ∈ u, c.kind = .comma) : Token.OfType u := by
  induction u with
  | nil => exact .nil
  | cons c rest ih =>
      obtain ⟨hc, hrest⟩ := List.forall_mem_cons.1 h
      exact ofType_cons hc (ih hrest)

/-- A phrase consists of tokens that types are written with, and its brackets are properly nested. -/
theorem ofType {part : TypePart} {u : List Token} (h : TypePhrase part u) : Token.OfType u := by
  induction h with
  | predefined kind => exact ofType_cons kind .nil
  | tuple hopening _ hclosing ih =>
      exact .group (by rw [hopening, hclosing]; rfl) (by rw [hopening]; rfl) (by rw [hclosing]; rfl) ih
  | rank hopening commas hclosing =>
      exact .group (by rw [hopening, hclosing]; rfl) (by rw [hopening]; rfl) (by rw [hclosing]; rfl)
        (ofType_commas commas)
  | mark kind => exact kind.elim (ofType_cons · .nil) (ofType_cons · .nil)
  | bare | done => exact .nil
  | named _ ih | lastType _ ih | unnamed _ ih | lastElement _ ih => exact ih
  | suffixed _ _ ih ih' | type _ _ ih ih' | unqualified _ _ ih ih' => exact ih.append ih'
  | types _ hcomma _ ih ih' | elements _ hcomma _ ih ih' => exact ih.append (ofType_cons hcomma ih')
  | element _ kind ih => exact ih.append (ofType_cons kind .nil)
  | unbound hless commas hgreater =>
      exact ofType_cons hless ((ofType_commas commas).append (ofType_cons hgreater .nil))
  | args hless _ hgreater ih => exact ofType_cons hless (ih.append (ofType_cons hgreater .nil))
  | simple kind => exact ofType_cons kind .nil
  | generic kind _ ih => exact ofType_cons kind ih
  | dotted hdot _ _ ih ih' => exact ofType_cons hdot (ih.append ih')
  | qualified kind hcolons _ _ ih ih' => exact ofType_cons kind (ofType_cons hcolons (ih.append ih'))

end TypePhrase

end Graft
