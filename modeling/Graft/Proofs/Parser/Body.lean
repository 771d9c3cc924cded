/-
Module: Graft.Proofs.Parser.Body
Purpose: Reading the body of a type does not go past the brace that closes it.
Main exports: Parser.InBody, Parser.Readable, Parser.typeBody_outcome, Parser.keepsBodies_unfold

A body whose brackets are properly nested is followed by the brace that closes it.  Whatever reading a
member passes, errors and their recovery included, the tokens left of the body close no brace that was
open before.  Only accessors break this when they cannot be read: their opening brace has been passed by
itself then.
-/
import Graft.Proofs.Parser.Productions
import Mathlib.Data.List.Chain

namespace Graft.Parser

variable {α : Type} {all first behind : List Token} {s t : ParserState}

/-! ### Places in a body -/

/-- The tokens start with a brace that closes a group. -/
def Closes (behind : List Token) : Prop := behind.head?.any (·.kind = .rightBrace) = true

theorem Closes.cons {t : Token} (h : t.kind = .rightBrace) : Closes (t :: behind) := by
  simp [Closes, h]

theorem Closes.exists_cons (h : Closes behind) :
    ∃ t rest, behind = t :: rest ∧ t.kind = .rightBrace := by
  cases behind with
  | nil => cases h
  | cons t rest => exact ⟨t, rest, rfl, by simpa [Closes] using h⟩

/-- A place between the braces of a type: the tokens before those `behind` are loose, and no token comes
that was not among the `first` ones. -/
structure InBody (first behind : List Token) (s : ParserState) : Prop where
  loose : ∃ u, s.unread = u ++ behind ∧ Loose u
  suffix : s.unread <:+ first

/-- A place in a body behind a `;` or a closing brace that was passed since the `first` tokens. -/
structure Finished (first behind : List Token) (s : ParserState) : Prop extends InBody first behind s where
  ended : ∃ before t, first = before ++ t :: s.unread ∧ Skip.endsMember t.kind = true

/-- Passing tokens leaves the others. -/
theorem unread_pass {a b : List Token} (h : s.unread = a ++ b) : (s.pass a.length).unread = b := by
  simp [ParserState.pass, h]

theorem unread_pass_one {c : Token} {b : List Token} (h : s.unread = c :: b) : (s.pass 1).unread = b :=
  unread_pass (a := [c]) h

theorem current_of_unread {c : Token} {b : List Token} (h : s.unread = c :: b) : s.current = c := by
  simp [ParserState.current, ParserState.ahead, h]

theorem Finished.shorter (h : Finished first behind s) : s.unread.length < first.length := by
  obtain ⟨before, t, hfirst, -⟩ := h.ended
  have := congrArg List.length hfirst
  simp only [List.length_append, List.length_cons] at this
  omega

namespace InBody

/-- A state before the same tokens is at the same place. -/
theorem congr (h : InBody first behind s) (same : t.unread = s.unread) : InBody first behind t := by
  obtain ⟨hloose, hsuffix⟩ := h
  rw [← same] at hloose hsuffix
  exact ⟨hloose, hsuffix⟩

theorem weaken {more : List Token} (h : InBody first behind s) (hfirst : first <:+ more) :
    InBody more behind s := ⟨h.loose, h.suffix.trans hfirst⟩

/-- The same place seen from a later one. -/
theorem here (h : InBody first behind s) : InBody s.unread behind s := ⟨h.loose, List.suffix_refl _⟩

/-- Some loose tokens are passed. -/
theorem passed {b rest : List Token} (h : InBody first behind s)
    (split : s.unread = b ++ (rest ++ behind)) (loose : Loose rest) (ht : t.unread = rest ++ behind) :
    InBody first behind t := by
  refine ⟨⟨rest, ht, loose⟩, .trans ?_ h.suffix⟩
  rw [split, ht]
  exact List.suffix_append _ _

/-- A body goes on with one of its tokens, or it is at its end. -/
theorem cases_unread (h : InBody first behind s) :
    s.unread = behind ∨ ∃ c u, s.unread = c :: (u ++ behind) ∧ Loose (c :: u) := by
  obtain ⟨u, hunread, hloose⟩ := h.loose
  cases u with
  | nil => exact .inl hunread
  | cons c u => exact .inr ⟨c, u, hunread, hloose⟩

variable (closes : Closes behind)
include closes

omit closes in
/-- Inside a body no closing brace comes next but the one behind it. -/
theorem unread_eq (h : InBody first behind s) (hbrace : s.current.kind = .rightBrace) :
    s.unread = behind := by
  refine h.cases_unread.resolve_right ?_
  rintro ⟨c, u, hunread, hloose⟩
  rw [current_of_unread hunread] at hbrace
  exact hloose.ne_rightBrace hbrace

theorem current_of_eq (h : s.unread = behind) : s.current.kind = .rightBrace := by
  obtain ⟨c, rest, rfl, hc⟩ := closes.exists_cons
  rw [current_of_unread h]
  exact hc

theorem not_atEnd (h : InBody first behind s) : s.atEnd = false := by
  obtain ⟨c, rest, rfl, -⟩ := closes.exists_cons
  obtain ⟨u, hunread, -⟩ := h.loose
  cases u <;> simp [ParserState.atEnd, hunread]

/-- What comes next in a body, unless it is a closing brace. -/
theorem exists_next (h : InBody first behind s) (hbrace : s.current.kind ≠ .rightBrace) :
    ∃ u, s.unread = s.current :: (u ++ behind) ∧ Loose (s.current :: u) := by
  rcases h.cases_unread with hunread | ⟨c, u, hunread, hloose⟩
  · exact absurd (current_of_eq closes hunread) hbrace
  · rw [current_of_unread hunread]
    exact ⟨u, hunread, hloose⟩

/-- A token that is no brace is passed by itself. -/
theorem pass (h : InBody first behind s) (notBrace : s.current.kind.isBrace = false) :
    InBody first behind (s.pass 1) := by
  have hne : s.current.kind ≠ .rightBrace ∧ s.current.kind ≠ .leftBrace := by
    constructor <;> rintro hkind <;> rw [hkind] at notBrace <;> cases notBrace
  obtain ⟨u, hunread, hloose⟩ := h.exists_next closes hne.1
  exact h.passed (b := [s.current]) hunread (hloose.passed hne.2) (unread_pass_one hunread)

/-- The group that an opening bracket starts. -/
theorem exists_group (h : InBody first behind s) (opener : s.current.kind.isOpener = true) :
    ∃ inner closing rest, s.unread = s.current :: (inner ++ closing :: (rest ++ behind)) ∧
      s.current.kind.closer? = some closing.kind ∧ Nested inner ∧ Loose rest := by
  have hne : s.current.kind ≠ .rightBrace := by
    rintro hkind
    rw [hkind] at opener
    cases opener
  obtain ⟨u, hunread, hloose⟩ := h.exists_next closes hne
  obtain ⟨inner, closing, rest, rfl, hcloses, hinner, hrest⟩ := hloose.exists_group opener
  exact ⟨inner, closing, rest, by rw [hunread]; simp, hcloses, hinner, hrest⟩

/-- A group is passed as a whole. -/
theorem unread_skipGroup (h : InBody first behind s) (opener : s.current.kind.isOpener = true) :
    ∃ before closing rest, s.unread = before ++ closing :: (rest ++ behind) ∧
      s.current.kind.closer? = some closing.kind ∧ Loose rest ∧ s.skipGroup.unread = rest ++ behind := by
  obtain ⟨inner, closing, rest, hunread, hcloses, hinner, hrest⟩ := h.exists_group closes opener
  refine ⟨s.current :: inner, closing, rest, hunread, hcloses, hrest, ?_⟩
  have hlength : (s.current :: (inner ++ [closing])).length = inner.length + 2 := by simp
  rw [ParserState.skipGroup, hunread, Skip.groupLength?_group hcloses hinner]
  dsimp only
  rw [← hlength]
  exact unread_pass (by rw [hunread]; simp)

theorem skipGroup (h : InBody first behind s) (opener : s.current.kind.isOpener = true) :
    InBody first behind s.skipGroup := by
  obtain ⟨before, closing, rest, hunread, -, hrest, hskip⟩ := h.unread_skipGroup closes opener
  exact h.passed (b := before ++ [closing]) (by rw [hunread]; simp) hrest hskip

omit closes in
/-- A distance that ends inside the tokens is passed. -/
theorem unread_passDistance {a b : List Token} (h : s.unread = a ++ b) :
    (s.passDistance (.closed a.length)).unread = b := unread_pass h

theorem skipUntil (terminators : List TokenKind) (h : InBody first behind s) :
    InBody first behind (s.skipUntil terminators) := by
  obtain ⟨u, hunread, hloose⟩ := h.loose
  obtain ⟨c, rest, rfl, hc⟩ := closes.exists_cons
  have hstop : (c :: rest).head?.any (·.kind.isCloser) = true := by
    rw [List.head?_cons, Option.any_some, hc]
    rfl
  obtain ⟨before, after, rfl, hafter, hlength⟩ := Skip.untilLength_loose terminators hloose hstop
  rw [List.append_assoc] at hunread
  refine h.passed hunread hafter ?_
  rw [ParserState.skipUntil, hunread, ← List.append_assoc, hlength]
  exact unread_passDistance hunread

/-- After an error reading goes on in the body, further on unless the body is at its end. -/
theorem synchronize (h : InBody first behind s) :
    InBody first behind s.synchronize ∧ ∃ before, s.unread = before ++ s.synchronize.unread ∧
      (s.unread ≠ behind → before ≠ []) ∧ (s.synchronize.unread = behind ∨
        (∃ more t, before = more ++ [t] ∧ Skip.endsMember t.kind = true) ∨
          Skip.startsDeclaration s.synchronize.current.kind = true) := by
  obtain ⟨u, hunread, hloose⟩ := h.loose
  obtain ⟨before, rest, rfl, hrest, hresumes, hmoves, hlength⟩ := Skip.resumeLength_loose hloose closes false
  rw [List.append_assoc] at hunread
  have hsync : s.synchronize.unread = rest ++ behind := by
    rw [List.append_assoc, ← hunread] at hlength
    rw [ParserState.synchronize, hlength]
    exact unread_passDistance (s := { s with panicking := false }) hunread
  refine ⟨h.passed hunread hrest hsync, before, by rw [hsync, hunread], fun hne => ?_, ?_⟩
  · refine hmoves rfl ?_
    rintro hnil
    rw [← List.append_assoc, hnil] at hunread
    exact hne hunread
  · rcases hresumes with rfl | hended | hstarts
    · exact .inl hsync
    · exact .inr (.inl hended)
    · refine .inr (.inr ?_)
      cases rest with
      | nil => cases hstarts
      | cons c more =>
          rw [current_of_unread hsync]
          exact hstarts

/-- Places in a body are kept. -/
theorem invariant (first : List Token) : BodyInvariant (InBody first behind) fun _ => True where
  pass h notBrace := h.pass closes notBrace
  report _ h := h.congr rfl
  rewind _ h := h.congr rfl
  passGroup h opener := h.skipGroup closes opener
  passUntil terminators h := h.skipUntil closes terminators
  ahead _ _ := trivial

/-- A member of a body ends behind a `;` or a closing brace. -/
theorem member (first : List Token) :
    MemberInvariant (InBody first behind) (Finished first behind) fun _ => True where
  toBodyInvariant := invariant closes first
  kept h := h.toInBody
  semicolon {s} h hsemicolon := by
    obtain ⟨u, hunread, -⟩ := h.exists_next closes (by rw [hsemicolon]; decide)
    obtain ⟨before, hfirst⟩ := h.suffix
    refine ⟨h.pass closes (by rw [hsemicolon]; rfl), before, s.current, ?_, by rw [hsemicolon]; rfl⟩
    rw [unread_pass_one hunread, ← hunread, hfirst]
  braces {s} h hbrace := by
    have hopener : s.current.kind.isOpener = true := by rw [hbrace]; rfl
    obtain ⟨before, closing, rest, hunread, hcloses, -, hskip⟩ := h.unread_skipGroup closes hopener
    obtain ⟨earlier, hfirst⟩ := h.suffix
    refine ⟨h.skipGroup closes hopener, earlier ++ before, closing, ?_, ?_⟩
    · rw [hskip, List.append_assoc, ← hunread, hfirst]
    · rw [(TokenKind.closer?_eq_rightBrace hcloses).2 hbrace]
      rfl

end InBody

/-! ### Accessors -/

/-- Here the name of a property and its opening brace follow, but the accessors cannot be read. -/
def UnreadableAccessors (s : ParserState) : Prop :=
  ∃ type t name u e v, Parser.type s = .ok type t ∧ namedType true t = .ok name u ∧
    u.current.kind = .leftBrace ∧ accessors u = .error e v

/-- A member starts here that is a property whose accessors cannot be read. -/
def StartsUnreadable (s : ParserState) : Prop :=
  ∃ head t, memberHead s = .ok head t ∧ isTypeKeyword t = false ∧ UnreadableAccessors t

/-- The place is one in `all` tokens behind an opening brace or what ends a member.  Every place where a
member is read is one, but for those that recovery finds at a keyword; so are places in bodies that are
skipped. -/
def MemberStart (all : List Token) (s : ParserState) : Prop :=
  ∃ before t, all = before ++ t :: s.unread ∧ (t.kind = .leftBrace ∨ Skip.endsMember t.kind = true)

/-- Behind no opening brace and no end of a member among the tokens, in bodies that are skipped as well,
there is a property whose accessors cannot be read. -/
def Readable (all : List Token) : Prop := ∀ s, MemberStart all s → ¬StartsUnreadable s

/-- Behind an opening brace another body starts; behind the brace that closes it, the group is
finished. -/
theorem InBody.enter (closes : Closes behind) (h : InBody first behind s)
    (hbrace : s.current.kind = .leftBrace) :
    ∃ inner inside, Nested inner ∧ Closes inside ∧ (s.pass 1).unread = inner ++ inside ∧
      InBody first inside (s.pass 1) ∧ MemberStart first (s.pass 1) ∧
        ∀ t : ParserState, t.unread = inside → Finished first behind (t.pass 1) := by
  obtain ⟨inner, closing, rest, hunread, hcloses, hinner, hrest⟩ :=
    h.exists_group closes (by rw [hbrace]; rfl)
  have hclosing := (TokenKind.closer?_eq_rightBrace hcloses).2 hbrace
  have hpass := unread_pass_one hunread
  obtain ⟨before, hfirst⟩ := h.suffix
  have hstart : first = before ++ s.current :: (s.pass 1).unread := by rw [hpass, ← hunread, hfirst]
  refine ⟨inner, closing :: (rest ++ behind), hinner, .cons hclosing, hpass, ?_, ?_, fun t ht => ?_⟩
  · refine ⟨⟨inner, hpass, hinner.loose⟩, before ++ [s.current], ?_⟩
    rw [hstart, List.append_assoc]
    rfl
  · exact ⟨before, s.current, hstart, .inl hbrace⟩
  · have hleft := unread_pass_one ht
    have hend : first = before ++ (s.current :: inner) ++ closing :: (t.pass 1).unread := by
      rw [hstart, hpass, hleft]
      simp
    refine ⟨⟨⟨rest, hleft, hrest⟩, before ++ (s.current :: inner) ++ [closing], ?_⟩, _, closing, hend, ?_⟩
    · rw [hend]
      simp
    · rw [hclosing]
      rfl

/-- Accessors that can be read end with the brace that closes their group. -/
theorem InBody.accessors (closes : Closes behind) (h : InBody first behind s)
    (hbrace : s.current.kind = .leftBrace) :
    Outcome (fun _ t => Finished first behind t) (fun _ => True) accessors s := by
  obtain ⟨inner, inside, -, hinside, -, hstart, -, hend⟩ := h.enter closes hbrace
  refine Outcome.bind (Q := fun _ t => InBody first inside t)
    (.expect (fun _ => hstart) fun _ => trivial) fun _ t _ ht => ?_
  refine Outcome.many (L := InBody first inside) (fun u hu => .eat (fun h => ?_) fun _ => ?_)
    (fun _ _ => trivial) ht
  · refine .ite (fun _ => .pure ⟨fun _ => ?_, fun h => (by cases h)⟩) fun h => absurd rfl h
    exact hend u (hu.unread_eq (kind_of_check h))
  · refine .ite (fun h => absurd h Bool.false_ne_true) fun _ => ?_
    refine ((MemberInvariant.accessor (InBody.invariant hinside first) u hu).mono (F := fun _ => True)
      (fun _ _ h => h) fun _ _ => trivial).map fun _ v hv => ⟨fun h => (by cases h), fun _ => hv.1⟩

/-! ### Members -/

/-- A place in a body, among `all` tokens, where the next member starts or the body ends. -/
structure Fresh (all behind : List Token) (s : ParserState) : Prop extends InBody all behind s where
  start : MemberStart all s ∨ s.unread = behind ∨ Skip.startsDeclaration s.current.kind = true

theorem MemberStart.weaken (h : MemberStart first s) (hfirst : first <:+ all) : MemberStart all s := by
  obtain ⟨before, t, rfl, ht⟩ := h
  obtain ⟨earlier, rfl⟩ := hfirst
  exact ⟨earlier ++ before, t, by simp, ht⟩

theorem Fresh.of_start (h : InBody all behind s) (start : MemberStart all s) : Fresh all behind s :=
  ⟨h, .inl start⟩

/-- What is finished since some of the tokens ends where a member may start. -/
theorem Finished.fresh (h : Finished first behind s) (hfirst : first <:+ all) : Fresh all behind s := by
  obtain ⟨before, t, hsplit, ht⟩ := h.ended
  have hstart : MemberStart first s := ⟨before, t, hsplit, .inr ht⟩
  exact .of_start (h.toInBody.weaken hfirst) (hstart.weaken hfirst)

theorem unread_record (s : ParserState) (e : ParseError) : (s.record e).unread = s.unread := by
  unfold ParserState.record
  split <;> rfl

/-- After an error in a member reading goes on further on, where another member may start or the body
ends. -/
theorem Fresh.of_error (closes : Closes behind) (hfirst : first <:+ all) (h : InBody first behind s)
    (hne : first ≠ behind) (e : ParseError) :
    Fresh all behind (s.record e).synchronize ∧
      (s.record e).synchronize.unread.length < first.length := by
  have hrecord := unread_record s e
  obtain ⟨hsync, before, hsplit, hmoves, hresumes⟩ := (h.congr hrecord).synchronize closes
  obtain ⟨earlier, hearlier⟩ := h.suffix
  rw [hrecord] at hsplit hmoves
  refine ⟨⟨hsync.weaken hfirst, ?_⟩, ?_⟩
  · rcases hresumes with hend | ⟨more, t, rfl, ht⟩ | hstarts
    · exact .inr (.inl hend)
    · have hstart : MemberStart first (s.record e).synchronize := by
        refine ⟨earlier ++ more, t, ?_, .inr ht⟩
        rw [← hearlier, hsplit]
        simp
      exact .inl (hstart.weaken hfirst)
    · exact .inr (.inr hstarts)
  · -- either the member has passed tokens before the error, or some are passed after it
    have hlength := congrArg List.length hearlier
    have hlength' := congrArg List.length hsplit
    rw [List.length_append] at hlength hlength'
    by_cases hsame : earlier = []
    · rw [hsame, List.nil_append] at hearlier
      have hbefore := List.length_pos_iff.2 (hmoves (hearlier ▸ hne))
      omega
    · have hearlier := List.length_pos_iff.2 hsame
      omega

/-- No attributes and no modifiers stand before a keyword. -/
theorem memberHead_eq (hattributes : s.check .leftBracket = false) (hmodifiers : isModifier s = false) :
    memberHead s = .ok ⟨[], .empty, s.current.span⟩ s := by
  have hlists : attributeLists s = .ok [] s := by
    refine Items.many_eq (.done ?_)
    change (if s.check .leftBracket = true then some <$> attributeList else pure none : Parser _) s = _
    rw [if_neg (Bool.eq_false_iff.1 hattributes)]
    rfl
  have htokens : many (whenever (return isModifier (← get)) advance) s = .ok [] s := by
    refine Items.many_eq (.done ?_)
    change (if isModifier s = true then some <$> advance else pure none : Parser _) s = _
    rw [if_neg (Bool.eq_false_iff.1 hmodifiers)]
    rfl
  have hset : modifiers s = .ok .empty s := bind_eq htokens _
  exact (bind_eq hlists _).trans (bind_eq hset _)

/-- A property may start with a token of this class. -/
def startsProperty : TokenKind → Bool
  | .leftBracket | .modifier | .identifier | .predefinedType | .leftParen => true
  | _ => false

/-- Where no property starts there is none whose accessors cannot be read. -/
theorem not_startsUnreadable (h : startsProperty s.current.kind = false) : ¬StartsUnreadable s := by
  have hattributes : s.check .leftBracket = false := by
    refine decide_eq_false fun hkind => ?_
    rw [hkind] at h
    cases h
  have hmodifiers : isModifier s = false := by
    unfold isModifier
    cases hkind : s.current.kind <;> rw [hkind] at h <;> first | rfl | cases h
  rintro ⟨head, t, hhead, -, type, u, -, -, -, -, htype, -⟩
  rw [memberHead_eq hattributes hmodifiers] at hhead
  cases hhead
  have herror : Outcome (fun _ _ => False) (fun _ => True) Parser.type s := by
    refine .fix fun _ => Outcome.bind (Q := fun _ _ => False) (.peek ?_) fun _ _ _ h => h.elim
    cases hkind : s.current.kind <;> rw [hkind] at h <;> first | exact .peek <| .throw trivial | cases h
  exact herror.of_ok htype

/-- A keyword that starts a declaration starts no property. -/
theorem not_startsProperty_of_startsDeclaration {kind : TokenKind} (h : Skip.startsDeclaration kind = true) :
    startsProperty kind = false := by
  cases kind <;> first | rfl | cases h

/-- Accessors can be read if nothing that starts like a property stands where a member may start. -/
theorem Readable.of_kinds (h : (all.map Token.kind).IsChain fun a b =>
    a = .leftBrace ∨ Skip.endsMember a = true → startsProperty b = false) : Readable all := by
  rintro s ⟨before, t, rfl, ht⟩
  refine not_startsUnreadable ?_
  cases hunread : s.unread with
  | nil => simp [ParserState.current, ParserState.ahead, hunread, Token.endOfFile, startsProperty]
  | cons next rest =>
      rw [hunread, List.map_append] at h
      rw [current_of_unread hunread]
      exact (List.isChain_append_cons_cons.1 h).2.1 ht

/-- The place behind the brace that the tokens `inside` start with, and behind the `;` that may follow
it. -/
def PastBrace (inside : List Token) (t : ParserState) : Prop :=
  ∃ u : ParserState, u.unread = inside ∧
    (t = u.pass 1 ∨ (u.pass 1).current.kind = .semicolon ∧ t = (u.pass 1).pass 1)

/-- What the members of a body need of the types nested in it: read from a place in a body, such a
type is finished there or the place is kept. -/
def KeepsBodies (all : List Token) (typeDecl : MemberHead → Parser TypeDecl) : Prop :=
  ∀ {first behind : List Token} {s : ParserState}, first <:+ all → Closes behind →
    InBody first behind s → isTypeKeyword s = true → ∀ head,
      Outcome (fun _ t => Finished first behind t) (InBody first behind) (typeDecl head) s

section

variable {typeDecl : MemberHead → Parser TypeDecl} (readable : Readable all)
  (htypeDecl : KeepsBodies all typeDecl) (closes : Closes behind)
include readable htypeDecl closes

/-- A member is finished in the body that it starts in, or the body goes on where it fails. -/
theorem member_outcome (h : Fresh all behind s) (hne : s.unread ≠ behind) (typeName : String) :
    Outcome (fun _ t => Finished s.unread behind t) (InBody s.unread behind)
      (member typeDecl typeName) s := by
  have inv := InBody.invariant closes s.unread
  have hreadable : ¬StartsUnreadable s := by
    rcases h.start with hstart | hend | hstarts
    · exact readable s hstart
    · exact absurd hend hne
    · exact not_startsUnreadable (not_startsProperty_of_startsDeclaration hstarts)
  refine (inv.memberHead s h.here).bind fun head t hhead ht => .get <| .ite (fun htype => ?_) fun htype => ?_
  · exact (htypeDecl h.suffix closes ht.1 htype head).map fun _ _ hu => hu
  · refine ((InBody.member closes _).memberAfter (P := fun _ => True) ht.1 ?_ typeName head).mono
      (fun _ _ hu => hu.1) fun _ hu => hu
    -- accessors that could not be read would make this an unreadable start
    intro type u name v hu hv hbrace hinBody
    refine .intro (fun list w hw => (hinBody.accessors closes hbrace).of_ok hw) fun e w hw => ?_
    exact absurd ⟨head, t, hhead, Bool.eq_false_iff.2 htype, type, u, name, v, e, w, hu, hv, hbrace, hw⟩
      hreadable

/-- Reading a body ends right before the brace that closes it, and never fails. -/
theorem typeBody_outcome (h : Fresh all behind s) (typeName : String) :
    Outcome (fun _ t => t.unread = behind) (fun _ => False) (typeBody typeDecl typeName) s := by
  refine Outcome.bind (Q := fun _ t => t.unread = behind) ?_ fun _ _ _ ht => .pure ht
  refine Outcome.many_of_progress (L := Fresh all behind) (fun u hu => .atEnd <| .check <|
    .ite (fun hend => ?_) fun hend => ?_) h
  · rw [hu.not_atEnd closes, Bool.false_or] at hend
    exact .pure ⟨fun _ => hu.unread_eq (kind_of_check hend), fun h => (by cases h)⟩
  · have hne : u.unread ≠ behind := fun heq =>
      hend (by simp [ParserState.check, InBody.current_of_eq closes heq])
    refine .eat (fun hsemicolon => .ite (fun _ => ?_) fun h => absurd rfl h) fun _ =>
      .ite (fun h => absurd h Bool.false_ne_true) fun _ => ?_
    · have hpast := (InBody.member closes _).semicolon hu.here (kind_of_check hsemicolon)
      exact .pure ⟨fun h => (by cases h), fun _ => ⟨hpast.fresh hu.suffix, hpast.shorter⟩⟩
    · refine Outcome.map (Q := fun _ t => Fresh all behind t ∧ t.unread.length < u.unread.length) ?_
        fun _ _ ht => ⟨fun h => (by cases h), fun _ => ht⟩
      refine Outcome.tryCatch (F := InBody u.unread behind)
        (.map (member_outcome readable htypeDecl closes hu hne typeName) fun _ t ht =>
          ⟨ht.fresh hu.suffix, ht.shorter⟩) fun e t _ ht => .modify <| .pure ?_
      exact Fresh.of_error closes hu.suffix ht hne e

omit readable htypeDecl closes in
/-- The closing brace of a body is passed. -/
theorem closingBrace_outcome {inside : List Token} (hinside : Closes inside) (h : s.unread = inside) :
    Outcome (fun _ t => t = s.pass 1) (fun _ => False) closingBrace s :=
  .eat (fun _ => .ite (fun h => by cases h) fun _ => .pure rfl) fun hcheck => by
    rw [ParserState.check, InBody.current_of_eq hinside h] at hcheck
    cases hcheck

omit closes in
/-- Members between braces end right behind the closing brace and the `;` that may follow it. -/
theorem bracedMembers_outcome {inner inside : List Token} (hbrace : s.current.kind = .leftBrace)
    (hpass : (s.pass 1).unread = inner ++ inside) (hinner : Nested inner) (hinside : Closes inside)
    (hfresh : Fresh all inside (s.pass 1)) (kind : TypeKind) (typeName : String) :
    Outcome (fun _ t => PastBrace inside t) (fun _ => False) (typeMembers typeDecl kind typeName) s := by
  have hkind : s.check .leftBrace = true := decide_eq_true hbrace
  have hsemicolon : s.check .semicolon = false := by
    rw [ParserState.check, hbrace]
    rfl
  refine .eat (fun h => by rw [hsemicolon] at h; cases h) fun _ =>
    .ite (fun h => absurd h Bool.false_ne_true) fun _ => ?_
  refine Outcome.bind (Q := fun _ t => t = s.pass 1)
    (.expect (fun _ => rfl) fun h => by rw [hkind] at h; cases h) fun _ t _ ht => ?_
  subst ht
  extract_lets rest
  have hrest : ∀ members {u : ParserState}, u.unread = inside →
      Outcome (fun _ t => PastBrace inside t) (fun _ => False) (rest members) u := by
    intro members u hu
    refine (closingBrace_outcome hinside hu).bind fun _ v _ hv => ?_
    subst hv
    exact .eat (fun h => .pure ⟨u, hu, .inr ⟨kind_of_check h, rfl⟩⟩) fun _ => .pure ⟨u, hu, .inl rfl⟩
  refine .ite (fun _ => .modify <| hrest [] ?_) fun _ => ?_
  · have hlength := Skip.untilLength_rightBrace hinner hinside
    rw [← hpass] at hlength
    rw [ParserState.skipUntil, hlength]
    exact InBody.unread_passDistance hpass
  · exact (typeBody_outcome readable htypeDecl hinside hfresh typeName).bind
      fun members _ _ ht => hrest members ht

/-- The members of a type are finished in the body that the type is in. -/
theorem typeMembers_outcome (hfirst : first <:+ all) (h : InBody first behind s) (kind : TypeKind)
    (typeName : String) :
    Outcome (fun _ t => Finished first behind t) (InBody first behind)
      (typeMembers typeDecl kind typeName) s := by
  have inv := InBody.member closes first
  by_cases hbrace : s.current.kind = .leftBrace
  · obtain ⟨inner, inside, hinner, hinside, hpass, hbody, hstart, hend⟩ := h.enter closes hbrace
    have hfresh : Fresh all inside (s.pass 1) := .of_start (hbody.weaken hfirst) (hstart.weaken hfirst)
    refine (bracedMembers_outcome readable htypeDecl hbrace hpass hinner hinside hfresh kind
      typeName).mono ?_ fun _ h => h.elim
    rintro _ _ ⟨u, hu, rfl | ⟨hsemicolon, rfl⟩⟩
    · exact hend u hu
    · exact inv.semicolon (hend u hu).toInBody hsemicolon
  · refine .eat (fun hsemicolon => .ite (fun _ => ?_) fun h => absurd rfl h) fun _ =>
      .ite (fun h => absurd h Bool.false_ne_true) fun _ => ?_
    · exact .pure (inv.semicolon h (kind_of_check hsemicolon))
    · exact Outcome.bind (Q := fun _ _ => False)
        (.expect (fun hcheck => hbrace (kind_of_check hcheck)) fun _ => h) fun _ _ _ h => h.elim

/-- A nested type is finished in the body that it is in. -/
theorem typeDeclOf_outcome (hfirst : first <:+ all) (h : InBody first behind s)
    (htype : isTypeKeyword s = true) (head : MemberHead) :
    Outcome (fun _ t => Finished first behind t) (InBody first behind) (typeDeclOf typeDecl head) s := by
  have inv := InBody.invariant closes first
  refine Outcome.bind (Q := fun _ t => t = { s with nextDecl := s.nextDecl + 1 }) (.get rfl)
    fun id t _ ht => ?_
  subst ht
  have hstart : InBody first behind { s with nextDecl := s.nextDecl + 1 } := h.congr rfl
  refine (inv.typeKind ((inv.advance hstart ?_).mono (fun _ _ h => h.1) fun _ h => h)).bind
    fun kind t _ ht => ?_
  · change s.current.kind.isBrace = false
    unfold isTypeKeyword at htype
    cases hkind : s.current.kind <;> rw [hkind] at htype <;> first | rfl | cases htype
  refine (inv.ident t ht).bind fun name u _ hu => (inv.typeParams u hu.1).bind fun params v _ hv =>
    (inv.skipBases v hv.1).bind fun _ w _ hw => ?_
  exact (typeMembers_outcome readable htypeDecl closes hfirst hw.1 kind name.name).bind
    fun _ _ _ hx => .spanFrom <| .pure hx

end

/-- However deep types are nested, they are finished in the bodies that they are in. -/
theorem keepsBodies_unfold (readable : Readable all) (rounds : Nat) :
    KeepsBodies all (unfold typeDeclOf rounds) := by
  induction rounds with
  | zero => exact fun _ _ h _ _ => h
  | succ rounds ih =>
      exact fun hfirst closes h htype head => typeDeclOf_outcome readable ih closes hfirst h htype head

end Graft.Parser
