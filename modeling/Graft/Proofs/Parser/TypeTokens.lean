/-
Module: Graft.Proofs.Parser.TypeTokens
Purpose: The tokens that a type is read from.
Main exports: Token.OfType, Parser.TakesFrom, Parser.Takes, Parser.Takes.type

A type that can be read consists of names, commas, angle brackets and suffixes, and its round and square
brackets are properly nested.  Nothing is said of readings that fail, so each production passes what its
parts pass, one after another.
-/
import Graft.Proofs.Parser.Body
import Graft.Proofs.Parser.Skipping

namespace Graft

/-! ### Tokens -/

/-- A token of a class that types are written with. -/
def TokenKind.isOfType : TokenKind → Bool
  | .identifier | .predefinedType | .dot | .doubleColon | .less | .greater | .comma | .question | .star
  | .leftParen | .rightParen | .leftBracket | .rightBracket => true
  | _ => false

/-- Tokens that types are written with, whose brackets are properly nested. -/
structure Token.OfType (tokens : List Token) : Prop where
  nested : Nested tokens
  kinds : ∀ t ∈ tokens, t.kind.isOfType = true

namespace Token.OfType

variable {t opening closing : Token} {u v : List Token}

theorem nil : OfType [] := ⟨.nil, nofun⟩

theorem append (hu : OfType u) (hv : OfType v) : OfType (u ++ v) where
  nested := hu.nested.append hv.nested
  kinds t ht := (List.mem_append.1 ht).elim (hu.kinds t) (hv.kinds t)

theorem single (kind : t.kind.isOfType = true) (notOpener : t.kind.isOpener = false)
    (notCloser : t.kind.isCloser = false) : OfType [t] where
  nested := .plain notOpener notCloser .nil
  kinds u hu := by rwa [List.mem_singleton.1 hu]

theorem group (closes : opening.kind.closer? = some closing.kind) (kind : opening.kind.isOfType = true)
    (kind' : closing.kind.isOfType = true) (inside : OfType u) : OfType (opening :: (u ++ [closing])) where
  nested := .group closes inside.nested .nil
  kinds t ht := by
    rcases List.mem_cons.1 ht with rfl | ht
    · exact kind
    rcases List.mem_append.1 ht with ht | ht
    · exact inside.kinds t ht
    · rwa [List.mem_singleton.1 ht]

/-- No token is of a class that types are not written with. -/
theorem kind_ne (h : OfType u) {kind : TokenKind} (hkind : kind.isOfType = false) :
    ∀ t ∈ u, t.kind ≠ kind := by
  rintro t ht rfl
  rw [h.kinds t ht] at hkind
  cases hkind

/-- Such tokens are told by their classes. -/
theorem congr (hu : OfType u) (h : v.map Token.kind = u.map Token.kind) : OfType v where
  nested := hu.nested.congr h
  kinds t ht := by
    have hmem : t.kind ∈ u.map Token.kind := h ▸ List.mem_map_of_mem ht
    obtain ⟨t', ht', hkind⟩ := List.mem_map.1 hmem
    rw [← hkind]
    exact hu.kinds t' ht'

end Token.OfType

open Token (OfType)

namespace Parser

variable {α β ι : Type} {s : ParserState} {Q R S : List Token → Prop} {p : Parser α}

/-! ### Passed tokens -/

/-- One token of a class. -/
def OneOf (kind : TokenKind) (tokens : List Token) : Prop := ∃ t, tokens = [t] ∧ t.kind = kind

/-- If the parser yields a value, the tokens that it passes satisfy `Q`. -/
def TakesFrom (s : ParserState) (Q : List Token → Prop) (p : Parser α) : Prop :=
  Outcome (fun _ t => ∃ passed, s.unread = passed ++ t.unread ∧ Q passed) (fun _ => True) p s

/-- Wherever the parser yields a value, the tokens that it passes satisfy `Q`. -/
def Takes (Q : List Token → Prop) (p : Parser α) : Prop := ∀ s, TakesFrom s Q p

namespace TakesFrom

theorem mono (hp : TakesFrom s Q p) (h : ∀ u, Q u → R u) : TakesFrom s R p :=
  Outcome.mono hp (fun _ _ ⟨u, hu, hQ⟩ => ⟨u, hu, h u hQ⟩) fun _ h => h

theorem pure {a : α} (h : Q []) : TakesFrom s Q (Pure.pure a) := Outcome.pure ⟨[], rfl, h⟩

theorem throw {e : ParseError} : TakesFrom s Q (MonadExcept.throw e : Parser α) := Outcome.throw trivial

/-- What one parser passes stands before what the next one passes. -/
theorem bind {f : α → Parser β} (hp : TakesFrom s Q p) (hf : ∀ a t, p s = .ok a t → TakesFrom t R (f a))
    (h : ∀ u v, Q u → R v → S (u ++ v)) : TakesFrom s S (p >>= f) :=
  Outcome.bind hp fun a t hrun ⟨u, hu, hQ⟩ => Outcome.mono (hf a t hrun) (fun _ _ ⟨v, hv, hR⟩ =>
    ⟨u ++ v, by rw [hu, hv, List.append_assoc], h u v hQ hR⟩) fun _ h => h

theorem map {g : α → β} (hp : TakesFrom s Q p) : TakesFrom s Q (g <$> p) := Outcome.map hp fun _ _ h => h

theorem ite {c : Prop} [Decidable c] {q : Parser α} (hp : c → TakesFrom s Q p) (hq : ¬c → TakesFrom s Q q) :
    TakesFrom s Q (if c then p else q) := Outcome.ite hp hq

/-! What is only looked at is not passed. -/

theorem get {f : ParserState → Parser α} (h : TakesFrom s Q (f s)) :
    TakesFrom s Q (MonadState.get >>= f) := h

theorem peek {f : Token → Parser α} (h : TakesFrom s Q (f s.current)) : TakesFrom s Q (peek >>= f) := h

theorem check {kind : TokenKind} {f : Bool → Parser α} (h : TakesFrom s Q (f (s.check kind))) :
    TakesFrom s Q (check kind >>= f) := h

theorem kindAhead {n : Nat} {f : TokenKind → Parser α} (h : TakesFrom s Q (f (s.ahead n).kind)) :
    TakesFrom s Q (kindAhead n >>= f) := h

theorem spanFrom {start : Span} {f : Span → Parser α} (h : TakesFrom s Q (f (s.spanFrom start))) :
    TakesFrom s Q (spanFrom start >>= f) := h

theorem failAt {cause : String → ParseCause} : TakesFrom s Q (failAt cause : Parser α) := peek throw

/-- A token of a class is passed. -/
theorem advance {kind : TokenKind} (hkind : kind ≠ .endOfFile) (h : s.check kind = true) :
    TakesFrom s (OneOf kind) advance := by
  refine .peek <| Outcome.modify <| .pure ?_
  obtain ⟨t, hunread, -, ht⟩ := ParserState.exists_of_check h hkind
  exact ⟨[t], hunread, t, rfl, ht⟩

theorem eat? {kind : TokenKind} (hkind : kind ≠ .endOfFile) :
    TakesFrom s (fun u => u = [] ∨ OneOf kind u) (eat? kind) :=
  check <| ite (fun h => map ((advance hkind h).mono fun _ => .inr)) fun _ => pure (.inl rfl)

theorem expect {kind : TokenKind} (hkind : kind ≠ .endOfFile) : TakesFrom s (OneOf kind) (expect kind) := by
  refine Outcome.expect (fun h => ?_) fun _ => trivial
  obtain ⟨t, hunread, -, ht⟩ := ParserState.exists_of_check h hkind
  exact ⟨[t], hunread, t, rfl, ht⟩

/-- What follows passes nothing. -/
theorem last {f : α → Parser β} (hp : TakesFrom s Q p) (hf : ∀ a t, TakesFrom t (· = []) (f a)) :
    TakesFrom s Q (p >>= f) := hp.bind (fun a t _ => hf a t) fun u v hu hv => by rwa [hv, List.append_nil]

theorem ident : TakesFrom s (OneOf .identifier) ident := by
  refine peek <| Outcome.ite (fun _ => .bind (Q := fun _ _ => False) (.peek <| .throw trivial)
    fun _ _ _ h => h.elim) fun hkind => ?_
  have hcheck : s.check .identifier = true := decide_eq_true (Decidable.not_not.1 hkind)
  exact (advance (by decide) hcheck).last fun _ _ => pure rfl

/-! Where a token is passed whose class types are written with, what types are written with is passed. -/

theorem ofType {kind : TokenKind} (hp : TakesFrom s (OneOf kind) p) (hkind : kind.isOfType = true)
    (notOpener : kind.isOpener = false) (notCloser : kind.isCloser = false) : TakesFrom s OfType p :=
  hp.mono fun _ ⟨_, hu, ht⟩ => hu ▸ .single (ht ▸ hkind) (ht ▸ notOpener) (ht ▸ notCloser)

theorem next {f : α → Parser β} (hp : TakesFrom s OfType p)
    (hf : ∀ a t, p s = .ok a t → TakesFrom t OfType (f a)) : TakesFrom s OfType (p >>= f) :=
  hp.bind hf fun _ _ => .append

/-- Between an opening bracket and the one that closes it stands what types are written with. -/
theorem bracketed {γ : Type} (opener closer : TokenKind) {item : α → Parser β} {f : α → β → Parser γ}
    (closes : opener.closer? = some closer) (hopener : opener.isOfType = true)
    (hcloser : closer.isOfType = true) (hp : TakesFrom s (OneOf opener) p)
    (hitem : ∀ a t, TakesFrom t OfType (item a)) (hf : ∀ a b t, TakesFrom t (OneOf closer) (f a b)) :
    TakesFrom s OfType (p >>= fun a => item a >>= f a) := by
  refine hp.bind (R := fun v => ∃ u t, v = u ++ [t] ∧ OfType u ∧ t.kind = closer) (fun a t _ => ?_) ?_
  · exact (hitem a t).bind (fun b u _ => hf a b u) fun u v hu ⟨t, hv, ht⟩ => ⟨u, t, by rw [hv], hu, ht⟩
  · rintro _ _ ⟨t, rfl, rfl⟩ ⟨u, t', rfl, hu, rfl⟩
    exact .group closes hopener hcloser hu

end TakesFrom

namespace Takes

/-- A production that occurs inside itself passes what it passes whenever the inner one does. -/
theorem fix {step : (ι → Parser α) → ι → Parser α}
    (hstep : ∀ inner, (∀ i, Takes Q (inner i)) → ∀ i, Takes Q (step inner i)) (i : ι) :
    Takes Q (fix step i) := by
  have hunfold : ∀ rounds i, Takes Q (unfold step rounds i) := by
    intro rounds
    induction rounds with
    | zero => exact fun _ _ => trivial
    | succ rounds ih => exact hstep _ ih
  exact fun s => Outcome.fix fun rounds => hstep _ (hunfold rounds) i s

theorem many {item : Parser (Option α)} (hitem : Takes OfType item) : Takes OfType (many item) := by
  refine fix (fun rest hrest _ s => (hitem s).next fun a? t _ => ?_) ()
  cases a? with
  | none => exact .pure .nil
  | some a => exact (hrest () t).next fun _ _ _ => .pure .nil

theorem eat {kind : TokenKind} (hkind : kind.isOfType = true) (notOpener : kind.isOpener = false)
    (notCloser : kind.isCloser = false) : Takes OfType (eat? kind) := fun s => by
  have hne : kind ≠ .endOfFile := by
    rintro rfl
    cases hkind
  refine (TakesFrom.eat? hne).mono fun u hu => ?_
  rcases hu with rfl | ⟨t, rfl, rfl⟩
  · exact .nil
  · exact .single hkind notOpener notCloser

theorem commas : Takes OfType commas := fun s =>
  (many (eat rfl rfl rfl) s).next fun _ _ _ => .pure .nil

theorem separated (hp : Takes OfType p) : Takes OfType (separated p) := by
  refine fix (fun rest hrest _ s => (hp s).next fun a t _ => ?_) ()
  refine TakesFrom.next ((eat rfl rfl rfl t).next fun _ _ _ => .pure .nil) fun b u _ =>
    .ite (fun _ => ?_) fun _ =>
    .pure .nil
  exact (hrest () u).next fun _ _ _ => .pure .nil

/-! ### Productions -/

theorem typeSuffix (start : Span) : Takes OfType (typeSuffix start) := fun s => by
  refine .get <| .ite (fun h => ?_) fun _ => .ite (fun h => ?_) fun _ => .ite (fun h => ?_) fun _ =>
    .pure .nil
  · exact .ofType (.last (.advance (by decide) h) fun _ _ => .spanFrom <| .pure rfl) rfl rfl rfl
  · exact .ofType (.last (.advance (by decide) h) fun _ _ => .spanFrom <| .pure rfl) rfl rfl rfl
  · have hcheck : s.check .leftBracket = true := (Bool.and_eq_true_iff.1 h).1
    exact .bracketed .leftBracket .rightBracket rfl rfl rfl (.advance (by decide) hcheck) (fun _ => commas)
      fun _ _ _ => (TakesFrom.expect (by decide)).last fun _ _ => .spanFrom <| .pure rfl

section

variable {type : Parser TypeSyntax} (htype : Takes OfType type)
include htype

theorem typeArgs : Takes OfType (typeArgs type) := fun s => by
  have hclose : ∀ {t : ParserState} {list : List TypeSyntax},
      TakesFrom t OfType (do let _ ← expect .greater; return list) :=
    .ofType (.last (.expect (by decide)) fun _ _ => .pure rfl) rfl rfl rfl
  refine .next (.ofType (.expect (by decide)) rfl rfl rfl) fun _ t _ => .check <| .check <|
    .ite (fun _ => ?_) fun _ => ?_
  · exact (commas t).next fun _ _ _ => hclose
  · exact (separated htype t).next fun _ _ _ => hclose

theorem typeSegment (withArgs : Bool) : Takes OfType (typeSegment type withArgs) := fun s => by
  refine .next (.ofType .ident rfl rfl rfl) fun _ t _ => .check <| .ite (fun _ => ?_) fun _ => ?_
  · exact (typeArgs htype t).next fun _ _ _ => .pure .nil
  · exact .next (.pure .nil) fun _ _ _ => .pure .nil

theorem namedTypeOf (withArgs : Bool) : Takes OfType (namedTypeOf type withArgs) := fun s => by
  refine .peek <| .check <| .kindAhead ?_
  extract_lets rest
  have hrest : ∀ qualifier?, Takes OfType (rest qualifier?) := fun qualifier? t => by
    refine (typeSegment htype withArgs t).next fun first u _ => (many (fun v => ?_) u).next fun more w _ =>
      .spanFrom <| .pure .nil
    refine .check <| .kindAhead <| .ite (fun h => ?_) fun _ => .pure .nil
    have hdot : v.check .dot = true := (Bool.and_eq_true_iff.1 h).1
    exact .next (.ofType (.advance (by decide) hdot) rfl rfl rfl) fun _ x _ =>
      .map (typeSegment htype withArgs x)
  refine .ite (fun h => ?_) fun _ => .next (.pure .nil) fun _ _ _ => hrest _ _
  rw [Bool.and_eq_true, decide_eq_true_eq] at h
  refine .next (.ofType .ident rfl rfl rfl) fun name t hname => ?_
  -- behind the name stands the token that was looked at
  have hcolon : t.check .doubleColon = true := by
    rw [ident_eq (kind_of_check h.1)] at hname
    cases hname
    rw [ParserState.check, current_pass, h.2]
    rfl
  exact .next (.ofType (.advance (by decide) hcolon) rfl rfl rfl) fun _ _ _ =>
    .next (.pure .nil) fun _ _ _ => hrest _ _

theorem tupleType : Takes OfType (tupleType type) := fun s => by
  refine .bracketed .leftParen .rightParen rfl rfl rfl (.expect (by decide)) (fun _ => separated fun t => ?_)
    fun _ _ _ => .last (.expect (by decide)) fun _ _ => .spanFrom <| .pure rfl
  refine (htype t).next fun _ u _ => .next (.check <| .ite (fun _ => ?_) fun _ => ?_) fun _ _ _ => .pure .nil
  · exact .map (.ofType .ident rfl rfl rfl)
  · exact .pure .nil

theorem baseType : Takes OfType (baseType type) := fun s => by
  refine .peek ?_
  split
  · rename_i hkind
    exact .ofType (.last (.advance (by decide) (decide_eq_true hkind)) fun _ _ => .pure rfl) rfl rfl rfl
  · exact tupleType htype s
  · exact .map (namedTypeOf htype true s)
  · exact .failAt

theorem typeOf : Takes OfType (typeOf type) := fun s =>
  (baseType htype s).next fun _ t _ => (many (typeSuffix _) t).next fun _ _ _ => .pure .nil

end

/-- A type consists of tokens that types are written with. -/
theorem type : Takes OfType type := fix (fun _ hinner _ => typeOf (hinner ())) ()

end Takes

end Parser

end Graft
