/-
Module: Graft.Proofs.Parser.Balance
Purpose: What is read without an error has brackets that balance.
Main exports: Parser.Opens, Parser.Even, Parser.Even.sourceFile, TokenStream.balanced_of_parse

A production that is read without an error closes the brackets that it opens.  How many are open is followed
from token to token; groups and searches are passed by count, so that nothing is said of the
kinds of the brackets inside.
-/
import Graft.Proofs.Parser.Reads
import Graft.Proofs.Parser.Termination

namespace Graft

open Token (KindAt)
open Skip (openBehind? Balanced Steps)

variable {all : List Token} {i j k : Nat}

open Token (between)

namespace Parser

variable {α β ι : Type} {d e n : Nat} {kind : TokenKind} {p : Parser α} {f : α → Parser β}

/-- What a parser takes stands between the numbers of the tokens where it starts and ends. -/
theorem Reads.of_takes {Q : List Token → Prop} {R : Nat → α → Prop} (hp : Takes Q p)
    (reads : Reads all i R p) :
    Reads all i (fun j _ => Q (between all i j)) p := by
  refine fun s hs => .intro (fun a t hrun => ?_) fun x t hrun => (reads s hs).of_error hrun
  obtain ⟨j, hij, hstands, h⟩ := (reads s hs).of_ok hrun
  obtain ⟨passed, hunread, hpassed⟩ := (hp s).of_ok hrun
  rw [hs.unread, hstands.unread] at hunread
  refine ⟨j, hij, hstands, fun herrors => ⟨(h herrors).1, ?_⟩⟩
  dsimp only
  rwa [Token.between_eq hunread hstands.inside]

/-- From the token number `i` on, with `d` brackets open, the parser comes to one with `e` brackets open, if
no error is reported. -/
def Opens (all : List Token) (i d e : Nat) (p : Parser α) : Prop :=
  Reads all i (fun j _ => openBehind? d (between all i j) = some e) p

/-- The parser closes the brackets that it opens, and no other. -/
def Even (all : List Token) (p : Parser α) : Prop := ∀ i, Opens all i 0 0 p

/-- At any depth as many brackets are open behind what is read as before. -/
theorem Even.opens (hp : Even all p) : Opens all i d d p :=
  (hp i).mono fun _ _ _ _ h => by simpa using Skip.openBehind?_add h d

namespace Opens

theorem pure {a : α} : Opens all i d d (Pure.pure a) := Reads.pure (by rw [Token.between_self]; rfl)

theorem throw {x : ParseError} : Opens all i d e (MonadExcept.throw x : Parser α) := Reads.throw

theorem bind (hp : Opens all i d e p) (hf : ∀ j a, Opens all j e n (f a)) : Opens all i d n (p >>= f) :=
  Reads.bind hp fun j a hij _ => (hf j a).mono fun k _ hjk _ hrest hfirst => by
    rw [← Token.between_append hij hjk, Skip.openBehind?_append, hfirst]
    exact hrest

theorem map {g : α → β} (hp : Opens all i d e p) :
    Opens all i d e (g <$> p) := Reads.map hp fun _ _ _ _ h => h

theorem ite {c : Prop} [Decidable c] {q : Parser α} (hp : c → Opens all i d e p)
    (hq : ¬c → Opens all i d e q) :
    Opens all i d e (if c then p else q) := Reads.ite hp hq

/-! What is only looked at is not passed. -/

theorem get {f : ParserState → Parser α} (h : ∀ s, s.Stands all i → Opens all i d e (f s)) :
    Opens all i d e (MonadState.get >>= f) := Reads.get h

theorem peek {f : Token → Parser α} (h : ∀ t, Token.PeekedAt all i t → Opens all i d e (f t)) :
    Opens all i d e (peek >>= f) := Reads.peek h

theorem check {f : Bool → Parser α} (hkind : kind ≠ .endOfFile)
    (h : ∀ b, (b = true → KindAt all i kind) → Opens all i d e (f b)) : Opens all i d e (check kind >>= f) :=
  Reads.check hkind h

theorem kindAhead {f : TokenKind → Parser α} (h : ∀ kind, Opens all i d e (f kind)) :
    Opens all i d e (kindAhead n >>= f) := Reads.kindAhead n fun kind _ => h kind

theorem atEnd {f : Bool → Parser α} (h : ∀ b, Opens all i d e (f b)) : Opens all i d e (atEnd >>= f) :=
  Reads.atEnd h

theorem spanFrom {start : Span} {f : Span → Parser α} (h : ∀ span, Opens all i d e (f span)) :
    Opens all i d e (spanFrom start >>= f) := fun s hs => .spanFrom (h _ s hs)

theorem failAt {cause : String → ParseCause} : Opens all i d e (failAt cause : Parser α) :=
  Reads.failAt cause

theorem failExpecting {what : String} : Opens all i d e (failExpecting what : Parser α) :=
  Reads.failExpecting what

/-! ### Single tokens -/

/-- One token of a known kind is passed. -/
theorem step (hat : KindAt all i kind) (hkind : Steps d e kind) (hp : Reads all i (fun j _ => j = i + 1) p) :
    Opens all i d e p := by
  obtain ⟨t, ht, ht'⟩ := hat
  exact hp.mono fun j _ _ _ hj => by rw [hj, Token.between_single ht, hkind t ht']

theorem advance (hat : KindAt all i kind) (hkind : Steps d e kind) : Opens all i d e advance :=
  step hat hkind (Reads.advance.mono fun _ _ _ _ h => h.2 hat.lt)

/-- What follows a token of a known kind is read from the next one on. -/
theorem past {g : α → Parser β} (hp : ∀ s, s.current.kind = kind → ∃ a, p s = .ok a (s.pass 1))
    (hat : KindAt all i kind) (hkind : Steps d e kind) (hg : ∀ a, Opens all (i + 1) e n (g a)) :
    Opens all i d n (p >>= g) := by
  intro s hs
  obtain ⟨t, ht, ht'⟩ := hat
  have hlt := (List.getElem?_eq_some_iff.1 ht).1
  obtain rfl : s.current = t := Option.some.inj ((hs.current.of_lt hlt).symm.trans ht)
  obtain ⟨a, hrun⟩ := hp s ht'
  refine .after hrun <| (hg a _ (hs.pass hlt)).mono (fun b u hu => ?_) fun u hu => ?_
  · obtain ⟨j, hij, hstands, h⟩ := hu
    refine ⟨j, Nat.le_of_succ_le hij, hstands, fun herrors => ⟨(h herrors).1, ?_⟩⟩
    dsimp only
    rw [← Token.between_append (Nat.le_succ i) hij, Skip.openBehind?_append, Token.between_single ht,
      hkind _ ht']
    exact (h herrors).2
  · obtain ⟨⟨j, hij, hstands⟩, herrors⟩ := hu
    exact ⟨⟨j, Nat.le_of_succ_le hij, hstands⟩, herrors⟩

theorem expect (hne : kind ≠ .endOfFile) (hkind : Steps d e kind) : Opens all i d e (expect kind) :=
  (Reads.expect hne).mono fun j t _ _ ⟨hj, ht, ht'⟩ => by rw [hj, Token.between_single ht, hkind t ht']

theorem eat {f : Bool → Parser α} (hne : kind ≠ .endOfFile) (hkind : Steps d e kind)
    (found : KindAt all i kind → Opens all (i + 1) e n (f true)) (missing : Opens all i d n (f false)) :
    Opens all i d n (eat kind >>= f) := by
  refine Reads.eat hne (fun hat => ?_) missing
  obtain ⟨t, ht, ht'⟩ := hat
  exact (found ⟨t, ht, ht'⟩).mono fun j _ hij _ hrest => by
    rw [← Token.between_append (Nat.le_succ i) hij, Skip.openBehind?_append, Token.between_single ht,
      hkind t ht']
    exact hrest

theorem newDeclId {f : DeclId → Parser α} (h : ∀ id, Opens all i d e (f id)) :
    Opens all i d e (newDeclId >>= f) :=
  fun _ hs => .after (p := Parser.newDeclId) rfl (h _ _ ⟨hs.unread, hs.inside, hs.last?, hs.tidy⟩)

theorem ident : Opens all i d d ident :=
  Reads.ident.mono fun j _ _ _ ⟨hj, t, ht, ht', _⟩ => by
    rw [hj, Token.between_single ht, (Steps.plain rfl rfl : Steps d d .identifier) t ht']

/-! ### Groups and searches -/

/-- What is passed balances. -/
theorem of_take {count : Nat} (h : Balanced ((all.drop i).take count)) (hj : j = i + count) :
    openBehind? d (between all i j) = some d := by
  subst hj
  rw [between, Nat.add_sub_cancel_left]
  simpa using Skip.openBehind?_add h d

theorem skipGroup (hat : KindAt all i kind) (opener : kind.isOpener = true) : Opens all i d d skipGroup := by
  obtain ⟨t, ht, rfl⟩ := hat
  obtain ⟨hi, rfl⟩ := List.getElem?_eq_some_iff.1 ht
  refine Reads.skipGroup.mono fun j _ hij _ h => ?_
  have hgroup := h.2
  rw [List.drop_eq_getElem_cons hi] at hgroup
  have hbalanced := Skip.balanced_groupLength? opener hgroup
  rw [← List.drop_eq_getElem_cons hi] at hbalanced
  exact of_take hbalanced (by omega)

theorem skipUntil (terminators : List TokenKind) : Opens all i d d (skipUntil terminators) :=
  (Reads.skipUntil terminators).mono fun _ _ _ _ h => of_take (Skip.balanced_untilLength h) (by omega)

/-- What types are written with balances. -/
theorem of_takes (hp : Takes Token.OfType p) (keeps : ∀ s, Keeps (Reads.ReadOn all i s) p) :
    Opens all i d d p :=
  (Reads.of_takes hp (.of_keeps keeps)).mono
    fun _ _ _ _ h => by simpa using Skip.openBehind?_add h.nested.balanced d

end Opens

namespace Even

/-! ### Recursion -/

/-- A production that occurs inside itself, wherever it is started with `P`. -/
theorem fix_of {P : ι → Nat → Prop} {step : (ι → Parser α) → ι → Parser α}
    (hstep : ∀ inner, (∀ x i, P x i → Opens all i 0 0 (inner x)) → ∀ x i, P x i →
      Opens all i 0 0 (step inner x))
    {x : ι} (h : P x i) : Opens all i 0 0 (Parser.fix step x) := by
  have hunfold : ∀ rounds x i, P x i → Opens all i 0 0 (unfold step rounds x) := by
    intro rounds
    induction rounds with
    | zero => exact fun _ i _ s hs => ⟨⟨i, Nat.le_refl i, hs⟩, id⟩
    | succ rounds ih => exact hstep _ ih
  exact fun s hs => .fix fun rounds => hstep _ (hunfold rounds) x i h s hs

theorem fix {step : (ι → Parser α) → ι → Parser α}
    (hstep : ∀ inner, (∀ x, Even all (inner x)) → ∀ x, Even all (step inner x)) (x : ι) :
    Even all (Parser.fix step x) := fun i =>
  fix_of (P := fun _ _ => True) (fun inner hinner x i _ => hstep inner (fun x i => hinner x i trivial) x i)
    (x := x) (i := i) trivial

theorem many {item : Parser (Option α)} (hitem : Even all item) : Even all (many item) := by
  refine fix (fun rest hrest _ i => (hitem i).bind fun j value? => ?_) ()
  cases value? with
  | none => exact .pure
  | some _ => exact (hrest () j).bind fun _ _ => .pure

theorem recovering {fallback : α} (hp : Even all p) : Even all (recovering fallback p) :=
  fun i => Reads.recovering fallback (hp i)

theorem eat? (hne : kind ≠ .endOfFile) (hkind : Steps 0 0 kind) : Even all (eat? kind) := fun _ =>
  .check hne fun _ h => .ite (fun hb => (Opens.advance (h hb) hkind).map) fun _ => .pure

theorem whenever_eat (hne : kind ≠ .endOfFile) (hkind : Steps 0 0 kind) (hp : Even all p) :
    Even all (whenever (eat kind) p) := fun _ =>
  .eat hne hkind (fun _ => .ite (fun _ => (hp _).map) (absurd rfl)) (.ite nofun fun _ => .pure)

/-! ### Types -/

theorem type : Even all type := fun _ => .of_takes .type fun s => (Reads.bodyInvariant_readOn s).type.keeps

theorem namedType (withArgs : Bool) : Even all (namedType withArgs) := fun _ =>
  .of_takes (.namedTypeOf .type withArgs) fun s => (Reads.bodyInvariant_readOn s).namedType withArgs

theorem typeParam : Even all typeParam := by
  refine fun i => (many (fun j => ?_) i).bind fun j _ => .peek fun t ht => ?_
  · exact .check (by decide) fun _ h => .ite (fun hb => (Opens.skipGroup (h hb) rfl).map) fun _ => .pure
  · refine .ite (fun h => ?_) fun _ => .ident
    rw [Bool.and_eq_true, decide_eq_true_eq] at h
    have hat : KindAt all j .keyword := h.1 ▸ ht.kindAt (by rw [h.1]; decide)
    exact (Opens.advance hat (.plain rfl rfl)).bind fun _ _ => .ident

theorem separated (hp : Even all p) : Even all (separated p) :=
  fix (fun _ hrest _ i => (hp i).bind fun _ _ => .eat (by decide) (.plain rfl rfl)
    (fun _ => .ite (fun _ => (hrest () _).bind fun _ _ => .pure) (absurd rfl)) (.ite nofun fun _ => .pure))
    ()

theorem typeParams : Even all typeParams := fun _ =>
  .eat (by decide) (.plain rfl rfl) (fun _ => .ite (fun _ => (separated typeParam).opens.bind fun _ _ =>
    (Opens.expect (by decide) (.plain rfl rfl)).bind fun _ _ => .pure) (absurd rfl))
      (.ite nofun fun _ => .pure)

/-! ### Expressions -/

/-- A bracket is no literal. -/
theorem literalValue?_bracket {t : Token}
    (h : t.kind.isOpener = true ∨ t.kind.isCloser = true ∨ t.kind = .endOfFile) :
    literalValue? t = .ok none := by
  unfold literalValue?
  cases hkind : t.kind <;> rw [hkind] at h <;> first | rfl | simp [TokenKind.isOpener,
    TokenKind.isCloser] at h

theorem literal : Even all literal := by
  refine fun i => .peek fun t ht => ?_
  split
  · refine fun s hs => .modify <| .throw ?_
    obtain ⟨j, hle, hj⟩ := (hs.report _).exists_pass 1
    exact ⟨⟨j, hle, hj⟩, fun h => absurd h (by simp [ParserState.report, ParserState.pass])⟩
  · exact .failExpecting
  · rename_i value hvalue
    have hkind := mt literalValue?_bracket fun h => by
      rw [hvalue] at h
      cases h
    simp only [not_or, Bool.not_eq_true] at hkind
    exact (Opens.advance (ht.kindAt hkind.2.2) (.plain hkind.1 hkind.2.1)).bind fun _ _ => .pure

section

variable {additive : Parser Expr} (hadditive : Even all additive)
include hadditive

theorem primary : Even all (primary additive) := by
  refine fun i => .peek fun t ht => .ite (fun hparen => ?_) fun _ => .get fun s hs =>
    .ite (fun h => ?_) fun _ =>
    .ite (fun _ => (namedType false i).map) fun _ => literal i
  · have hat : KindAt all i .leftParen := hparen ▸ ht.kindAt (by rw [hparen]; decide)
    exact (Opens.advance hat (.opener rfl)).bind fun _ _ => hadditive.opens.bind fun _ _ =>
      (Opens.expect (by decide) (.closer rfl)).bind fun _ _ => .spanFrom fun _ => .pure
  · simp only [isNameOf, ParserState.checkWord, Bool.and_eq_true, decide_eq_true_eq] at h
    have hat : KindAt all i .identifier := h.1.1 ▸ hs.current.kindAt (by rw [h.1.1]; decide)
    have hparen : KindAt all (i + 1) .leftParen := h.2 ▸ (hs.ahead 1).kindAt (by rw [h.2]; decide)
    exact .past (fun _ _ => ⟨_, rfl⟩) hat (.plain rfl rfl) fun _ =>
      .past (fun _ _ => ⟨_, rfl⟩) hparen (.opener rfl)
      fun _ => (namedType true).opens.bind fun _ _ =>
      (Opens.expect (by decide) (.closer rfl)).bind fun _ _ =>
        .spanFrom fun _ => .pure

theorem unary : Even all (unary additive) := fun i =>
  (many (eat? (by decide) (.plain rfl rfl : Steps 0 0 .minus)) i).bind fun _ _ =>
    (primary hadditive).opens.bind fun _ _ => .pure

theorem additiveOf : Even all (additiveOf additive) := fun i =>
  (unary hadditive i).bind fun _ _ =>
    (many (whenever_eat (by decide) (.plain rfl rfl) (unary hadditive))).opens.bind fun _ _ => .pure

end

theorem additive : Even all additive := fix (fun _ hinner _ => additiveOf (hinner ())) ()

theorem expr {terminators : List TokenKind} (hend : .endOfFile ∉ terminators) :
    Even all (expr terminators) := fun i =>
  Reads.expr hend (additive i) (fun _ _ _ _ _ h => h) fun _ _ h _ =>
    Opens.of_take (Skip.balanced_untilLength h.search) (by have hle := h.le; omega)

/-! ### Attributes and modifiers -/

theorem argument : Even all argument := by
  refine fun i => .get fun s hs => ?_
  extract_lets start separator rest
  have hrest : ∀ j role, Opens all j 0 0 (rest role) := fun j _ =>
    (expr (by decide) j).bind fun _ _ => .spanFrom fun _ => .pure
  refine .ite (fun h => ?_) fun _ => Opens.pure.bind hrest
  simp only [Bool.and_eq_true, Bool.or_eq_true, decide_eq_true_eq] at h
  have hname := hs.kindAt_of_check (by decide) h.1
  have hseparator : KindAt all (i + 1) separator :=
    (hs.ahead 1).kindAt (by rcases h.2 with h | h <;> rw [show (s.ahead 1).kind = _ from h] <;> decide)
  have hplain : Steps 0 0 separator := by rcases h.2 with h | h <;> rw [h] <;> exact .plain rfl rfl
  exact .past (fun _ _ => ⟨_, rfl⟩) hname (.plain rfl rfl) fun _ =>
    .past (fun _ _ => ⟨_, rfl⟩) hseparator hplain fun _ => Opens.pure.bind hrest

theorem arguments : Even all arguments := by
  refine fix (fun rest hrest _ i => .check (by decide) fun _ _ => .atEnd fun _ =>
    .ite (fun _ => .pure) fun _ => ?_) ()
  exact (argument i).bind fun _ _ => .eat (by decide) (.plain rfl rfl)
    (fun _ => .ite (fun _ => (hrest () _).bind fun _ _ => .pure) (absurd rfl)) (.ite nofun fun _ => .pure)

theorem attributeItem : Even all attributeItem := by
  refine fun i => .peek fun t _ => (namedType true i).bind fun j _ => ?_
  refine .eat (by decide) (.opener rfl) (fun _ => .ite (fun _ => ?_) (absurd rfl)) (.ite nofun fun _ => ?_)
  · exact arguments.opens.bind fun _ _ => (Opens.expect (by decide) (.closer rfl)).bind fun _ _ =>
      Opens.pure.bind fun _ _ => .spanFrom fun _ => .pure
  · exact Opens.pure.bind fun _ _ => .spanFrom fun _ => .pure

/-- The tokens from a square bracket to the one that closes it, with what balances between them. -/
def IsSquare (tokens : List Token) : Prop :=
  ∃ opening inner closing, tokens = opening :: (inner ++ [closing]) ∧ opening.kind = .leftBracket ∧
    closing.kind = .rightBracket ∧ Balanced inner

omit i in
theorem IsSquare.balanced {tokens : List Token} (h : IsSquare tokens) : Balanced tokens := by
  obtain ⟨opening, inner, closing, rfl, hopening, hclosing, hinner⟩ := h
  exact .group (by rw [hopening]; rfl) (by rw [hclosing]; rfl) hinner

/-- Between two numbers of tokens it is a group. -/
theorem IsSquare.groupAt (h : IsSquare (between all i j)) (hij : i ≤ j) (hj : j ≤ all.length) :
    Token.GroupAt all i j .leftBracket := by
  obtain ⟨opening, inner, closing, htokens, hopening, hclosing, hinner⟩ := h
  have hdrop : all.drop i = opening :: (inner ++ closing :: all.drop j) := by
    rw [← Token.between_append_drop hij, htokens]
    simp
  have hlength := congrArg List.length htokens
  rw [Token.length_between hj, List.length_cons, List.length_append, List.length_singleton] at hlength
  refine ⟨⟨opening, ?_, hopening⟩, ?_⟩
  · rw [← Nat.add_zero i, ← List.getElem?_drop, hdrop]
    rfl
  · rw [hdrop, Skip.groupLength?_group_of_balanced (by rw [hopening]; rfl) (by rw [hclosing]; rfl) hinner,
      hlength]
    congr 1
    omega

theorem attributeList_square (i : Nat) :
    Reads all i (fun j _ => IsSquare (between all i j)) attributeList := by
  refine (Reads.expect (by decide)).bind fun j opening hij _ => .get fun s hs => ?_
  extract_lets rest
  have hrest : ∀ m target?, Reads all m (fun k _ => j ≤ m → Balanced (between all j m) →
      j = i + 1 ∧ all[i]? = some opening ∧ opening.kind = .leftBracket → IsSquare (between all i k))
        (rest target?) := by
    intro m target?
    refine Reads.bind (attributeItem m) fun n _ hmn _ => Reads.bind (many (fun n => ?_) n) fun l _ hnl _ =>
      (Reads.expect (by decide)).bind fun k closing hlk _ => fun s hs => .spanFrom <| .pure
        ⟨k, Nat.le_refl k, hs, fun herrors => ⟨herrors, ?_⟩⟩
    · exact .eat (by decide) (.plain rfl rfl) (fun _ => .ite (fun _ => .check (by decide) fun _ _ =>
        .ite (fun _ => .pure) fun _ => (attributeItem _).map) (absurd rfl)) (.ite nofun fun _ => .pure)
    · rintro ⟨rfl, hclosing⟩ hmore hitem hjm htarget ⟨rfl, hopening⟩
      refine ⟨opening, between all (i + 1) l, closing, ?_, hopening.2, hclosing.2, ?_⟩
      · rw [← Token.between_append hij (show i + 1 ≤ l + 1 by omega), Token.between_single hopening.1,
          ← Token.between_append (show i + 1 ≤ l by omega) hlk, Token.between_single hclosing.1]
        rfl
      · rw [← Token.between_append hjm (show m ≤ l by omega), ← Token.between_append hmn hnl]
        exact htarget.append (Balanced.append hitem hmore)
  refine .ite (fun h => ?_) fun _ => ?_
  · -- the target and the colon behind it
    simp only [isTarget, Bool.and_eq_true, Bool.or_eq_true, decide_eq_true_eq] at h
    have hcolon : KindAt all (j + 1) .colon := h.2 ▸ (hs.ahead 1).kindAt (by rw [h.2]; decide)
    have hname : KindAt all j s.current.kind :=
      hs.current.kindAt (by rcases h.1 with (h | h) | h <;> rw [h] <;> decide)
    have hplain : Steps 0 0 s.current.kind := by
        rcases h.1 with (h | h) | h <;> rw [h] <;> exact .plain rfl rfl
    have htarget : Balanced (between all j (j + 2)) := by
      obtain ⟨name, hat, hkind⟩ := hname
      obtain ⟨colon, hat', hkind'⟩ := hcolon
      rw [← Token.between_append (Nat.le_succ j) (Nat.le_succ (j + 1)), Token.between_single hat,
        Token.between_single hat']
      exact Balanced.append (hplain name hkind) ((Steps.plain rfl rfl : Steps 0 0 .colon) colon hkind')
    refine Reads.nameToken.bind fun k name hjk _ => Reads.advance.bind fun l _ hkl _ =>
      (Reads.pure (Q := fun m _ => m = l) rfl).bind fun m target? hlm _ => (hrest m target?).mono ?_
    rintro _ _ _ _ hsquare rfl ⟨-, hl⟩ hk hopening
    obtain ⟨rfl, -⟩ := hk hname.lt
    obtain rfl := hl hcolon.lt
    exact hsquare (by omega) htarget hopening
  · refine (Reads.pure (Q := fun m _ => m = j) rfl).bind fun m target? hjm _ => (hrest m target?).mono ?_
    rintro _ _ _ _ hsquare rfl hopening
    refine hsquare (Nat.le_refl _) ?_ hopening
    rw [Token.between_self]
    exact .nil

theorem attributeList : Even all attributeList := fun i =>
  (attributeList_square i).mono fun _ _ _ _ h => h.balanced

theorem attributeLists : Even all attributeLists :=
  many fun i => .check (by decide) fun _ _ => .ite (fun _ => (attributeList i).map) fun _ => .pure

/-- A modifier is a keyword or an identifier. -/
theorem kindAt_of_isModifier {s : ParserState} (hs : s.Stands all i) (h : isModifier s = true) :
    KindAt all i .modifier ∨ KindAt all i .identifier := by
  unfold isModifier at h
  split at h
  · rename_i hkind
    exact .inl (hkind ▸ hs.current.kindAt (by rw [hkind]; decide))
  · rename_i hkind
    exact .inr (hkind ▸ hs.current.kindAt (by rw [hkind]; decide))
  · cases h

theorem modifiers : Even all modifiers := fun i =>
  (many (fun _ => .get fun _ hs => .ite (fun h => ((kindAt_of_isModifier hs h).elim
    (fun hat => Opens.advance hat (.plain rfl rfl)) fun hat => .advance hat (.plain rfl rfl)).map)
      fun _ => .pure) i).bind fun _ _ => .pure

theorem memberHead : Even all memberHead := fun i =>
  .peek fun _ _ => (attributeLists i).bind fun _ _ => modifiers.opens.bind fun _ _ => .pure

/-! ### Members -/

theorem skipBody : Even all skipBody := by
  refine fun i => .peek fun t ht => ?_
  extract_lets kind rest
  have hrest : ∀ j u, Opens all j 0 0 (rest u) := fun _ _ =>
    (Opens.expect (by decide) (.plain rfl rfl)).bind fun _ _ => .pure
  refine .ite (fun hbrace => ?_) fun _ => .ite (fun harrow => ?_) fun _ => hrest i ()
  · have hbrace : t.kind = .leftBrace := hbrace
    exact .skipGroup (hbrace ▸ ht.kindAt (by rw [hbrace]; decide)) rfl
  · have harrow : t.kind = .arrow := harrow
    have hat : KindAt all i .arrow := harrow ▸ ht.kindAt (by rw [harrow]; decide)
    exact (Opens.advance hat (.plain rfl rfl)).bind fun _ _ => (Opens.skipUntil _).bind hrest

theorem skipToBody : Even all skipToBody := fun _ => .skipUntil _

theorem otherMember (head : MemberHead) : Even all (otherMember head) := fun i =>
  (skipToBody i).bind fun _ _ => (skipBody _).bind fun _ _ => .spanFrom fun _ => .pure

theorem method (head : MemberHead) (type : TypeSyntax) (name : NamedType) (hat : KindAt all i .leftParen) :
    Opens all i 0 0 (method head type name) :=
  (Opens.skipGroup hat rfl).bind fun _ _ => (skipToBody _).bind fun _ _ => (skipBody _).bind fun _ _ =>
    .spanFrom fun _ => .pure

theorem arrowBody (hat : KindAt all i .arrow) : Opens all i d d arrowBody :=
  (Opens.advance hat (.plain rfl rfl)).bind fun _ _ => (Opens.skipUntil _).bind fun _ _ => .spanFrom fun _ =>
    (Opens.expect (by decide) (.plain rfl rfl)).bind fun _ _ => .pure

theorem accessorBody : Even all accessorBody := by
  refine fun i => .peek fun t ht => .ite (fun hbrace => ?_) fun _ => .ite (fun harrow => ?_) fun _ => ?_
  · have hat : KindAt all i .leftBrace := hbrace ▸ ht.kindAt (by rw [hbrace]; decide)
    exact (Opens.skipGroup hat rfl).bind fun _ _ => .spanFrom fun _ => .pure
  · exact (arrowBody (harrow ▸ ht.kindAt (by rw [harrow]; decide))).map
  · exact (Opens.expect (by decide) (.plain rfl rfl)).bind fun _ _ => .pure

theorem accessor : Even all accessor := by
  refine fun i => (memberHead i).bind fun _ _ => Opens.ident.bind fun _ _ => ?_
  split
  · exact .throw
  · exact (accessorBody _).bind fun _ _ => .spanFrom fun _ => .pure

/-- Behind the last accessor the brace before the first one is closed. -/
theorem openBehind?_accessors {list : List AccessorDecl} (h : Reads.Chain (fun i j a? => match a? with
      | none => KindAt all i .rightBrace ∧ j = i + 1
      | some _ => i ≤ j ∧ Balanced (between all i j)) i j list) :
          openBehind? 1 (between all i j) = some 0 := by
  induction h with
  | done _ last =>
      obtain ⟨⟨t, ht, hkind⟩, rfl⟩ := last
      rw [Token.between_single ht]
      exact (Steps.closer rfl : Steps 1 0 .rightBrace) t hkind
  | more le first later ih =>
      rw [← Token.between_append le later.le, Skip.openBehind?_append, Skip.openBehind?_add first.2 1]
      exact ih

theorem accessors : Even all accessors := fun _ =>
  (Opens.expect (by decide) (.opener rfl)).bind fun j _ =>
    (Reads.many (fun _ => .eat (by decide) (fun hbrace => .ite (fun _ => .pure ⟨hbrace, rfl⟩) (absurd rfl))
      (.ite nofun fun _ => Reads.map (accessor _) fun _ _ hle _ h => ⟨hle, h⟩)) j).mono fun _ _ _ _ h =>
        openBehind?_accessors h

theorem property (head : MemberHead) (type : TypeSyntax) (name : NamedType) :
    Even all (property head type name) := by
  refine fun i => .check (by decide) fun _ harrow => ?_
  extract_lets rest
  have hrest : ∀ j body, Opens all j 0 0 (rest body) := fun _ _ => .spanFrom fun _ => .pure
  refine .ite (fun h => ?_) fun _ => (accessors i).bind fun _ _ => .eat (by decide) (.plain rfl rfl)
    (fun _ => .ite (fun _ => ?_) (absurd rfl)) (.ite nofun fun _ => Opens.pure.bind hrest)
  · exact (arrowBody (harrow h)).bind fun _ _ => Opens.pure.bind hrest
  · exact (expr (by decide) _).bind fun _ _ => (Opens.expect (by decide) (.plain rfl rfl)).bind fun _ _ =>
      Opens.pure.bind hrest

theorem initializer? : Even all initializer? := whenever_eat (by decide) (.plain rfl rfl) (expr (by decide))

theorem variableAfter (name : Ident) : Even all (variableAfter name) := fun i =>
  (initializer? i).bind fun _ _ => .spanFrom fun _ => .pure

theorem field (head : MemberHead) (type : TypeSyntax) (name : NamedType) :
    Even all (field head type name) := fun i =>
  (variableAfter _ i).bind fun _ _ => (many (whenever_eat (by decide) (.plain rfl rfl) fun _ =>
    Opens.ident.bind fun _ _ => variableAfter _ _) _).bind fun _ _ =>
      (Opens.expect (by decide) (.plain rfl rfl)).bind fun _ _ => .spanFrom fun _ => .pure

theorem event (head : MemberHead) : Even all (event head) := by
  refine fun i => (Opens.expect (by decide) (.plain rfl rfl)).bind fun _ _ => (type _).bind fun _ _ =>
    (namedType false _).bind fun j _ => ?_
  extract_lets first rest
  have hrest : ∀ j more, Opens all j 0 0 (rest more) := fun _ _ => .spanFrom fun _ => .pure
  refine .check (by decide) fun _ hbrace => .ite (fun h => ?_) fun _ => (initializer? _).bind fun _ _ => ?_
  · exact (Opens.skipGroup (hbrace h) rfl).bind fun _ _ => Opens.pure.bind hrest
  · exact (many (whenever_eat (by decide) (.plain rfl rfl) fun _ => Opens.ident.bind fun _ _ =>
      (initializer? _).bind fun _ _ => .pure) _).bind fun _ _ =>
        (Opens.expect (by decide) (.plain rfl rfl)).bind fun _ _ => Opens.pure.bind hrest

theorem memberNamed (head : MemberHead) (type : TypeSyntax) : Even all (memberNamed head type) := by
  refine fun i => (namedType true i).bind fun j name => .check (by decide) fun _ _ =>
    Opens.kindAhead fun _ =>
    .ite (fun _ => otherMember head j) fun _ => .peek fun t ht => ?_
  split
  · rename_i hkind
    exact method head type name (hkind ▸ ht.kindAt (by rw [hkind]; decide))
  · exact property head type name j
  · exact property head type name j
  · exact field head type name j
  · exact field head type name j
  · exact field head type name j
  · exact .failAt

theorem memberAfter (typeName : String) (head : MemberHead) : Even all (memberAfter typeName head) := by
  refine fun i => .get fun s _ => ?_
  split
  · exact event head i
  · exact otherMember head i
  · exact otherMember head i
  · exact otherMember head i
  · exact .failAt
  · exact .failAt
  · refine .ite (fun _ => otherMember head i) fun _ => (type i).bind fun j _ => .peek fun t _ => ?_
    split
    · exact otherMember head j
    · exact otherMember head j
    · exact memberNamed head _ j
    · exact .failExpecting

/-! ### Declarations -/

/-- The token number `i` is no bracket. -/
def PlainAt (all : List Token) (i : Nat) : Prop := ∃ kind, KindAt all i kind ∧ Steps 0 0 kind

/-- No bracket starts a type declaration. -/
theorem plainAt_of_isTypeKeyword {s : ParserState} (hs : s.Stands all i) (h : isTypeKeyword s = true) :
    PlainAt all i := by
  unfold isTypeKeyword at h
  have hat : ∀ {kind : TokenKind}, s.current.kind = kind → kind ≠ .endOfFile → KindAt all i kind :=
    fun hkind hne => hkind ▸ hs.current.kindAt (hkind ▸ hne)
  split at h
  · exact ⟨_, hat ‹_› (by decide), .plain rfl rfl⟩
  · exact ⟨_, hat ‹_› (by decide), .plain rfl rfl⟩
  · exact ⟨_, hat ‹_› (by decide), .plain rfl rfl⟩
  · exact ⟨_, hat ‹_› (by decide), .plain rfl rfl⟩
  · exact ⟨_, hat ‹_› (by decide), .plain rfl rfl⟩
  · cases h

theorem typeKind (hat : PlainAt all i) : Opens all i 0 0 typeKind := by
  obtain ⟨kind, hat, hkind⟩ := hat
  refine (Opens.advance hat hkind).bind fun _ _ => ?_
  split
  · exact .pure
  · exact .pure
  · exact .pure
  · exact .pure
  · refine .eat (by decide) (.plain rfl rfl) (fun _ => .ite (fun _ => .pure) (absurd rfl))
      (.ite nofun fun _ => ?_)
    exact .eat (by decide) (.plain rfl rfl) (fun _ => .pure) .pure

/-- If no error is reported, the brace that is open is closed. -/
theorem closingBrace : Opens all i 1 0 closingBrace :=
  .eat (by decide) (.closer rfl) (fun _ => .ite nofun fun _ => .pure) (.ite (fun _ _ hs => .modify <| .pure
    ⟨i, Nat.le_refl i, hs.report _, fun herrors => absurd herrors (by simp [ParserState.report])⟩)
    (absurd rfl))

theorem skipBases : Even all skipBases := by
  refine fun i => .check (by decide) fun _ hparen => ?_
  extract_lets rest
  have hrest : ∀ j u, Opens all j 0 0 (rest u) := fun _ _ => .check (by decide) fun _ _ => .get fun _ _ =>
    .ite (fun _ => .skipUntil _) fun _ => .pure
  exact .ite (fun h => (Opens.skipGroup (hparen h) rfl).bind hrest) fun _ => hrest i ()

section

variable {typeDecl : MemberHead → Parser TypeDecl}
  (htypeDecl : ∀ head i, PlainAt all i → Opens all i 0 0 (typeDecl head))
include htypeDecl

theorem member (typeName : String) : Even all (member typeDecl typeName) := fun i =>
  (memberHead i).bind fun _ head => .get fun _ hs => .ite
    (fun h => (htypeDecl head _ (plainAt_of_isTypeKeyword hs h)).map) fun _ => memberAfter typeName head _

theorem typeBody (typeName : String) : Even all (typeBody typeDecl typeName) := by
  refine fun i => (many (fun j => ?_) i).bind fun _ _ => .pure
  exact .atEnd fun _ => .check (by decide) fun _ _ => .ite (fun _ => .pure) fun _ =>
    .eat (by decide) (.plain rfl rfl) (fun _ => .ite (fun _ => .pure) (absurd rfl)) (.ite nofun fun _ =>
      (recovering (fun k => (member htypeDecl typeName k).map) _).map)

theorem typeMembers (kind : TypeKind) (typeName : String) :
    Even all (typeMembers typeDecl kind typeName) := by
  refine fun i => .eat (by decide) (.plain rfl rfl) (fun _ => .ite (fun _ => .pure) (absurd rfl))
    (.ite nofun fun _ => ?_)
  refine (Opens.expect (by decide) (.opener rfl)).bind fun _ _ => ?_
  extract_lets rest
  have hrest : ∀ j members, Opens all j 1 0 (rest members) := fun _ _ =>
    closingBrace.bind fun _ _ => .eat (by decide) (.plain rfl rfl) (fun _ => .pure) .pure
  refine .ite (fun _ => (Opens.skipUntil _).bind fun _ _ => Opens.pure.bind hrest) fun _ => ?_
  exact (typeBody htypeDecl typeName).opens.bind hrest

theorem typeDeclOf (head : MemberHead) (hat : PlainAt all i) :
    Opens all i 0 0 (typeDeclOf typeDecl head) := by
  refine .newDeclId fun _ => (typeKind hat).bind fun _ kind => Opens.ident.bind fun _ name =>
    (typeParams _).bind
    fun _ _ => (skipBases _).bind fun _ _ => (typeMembers htypeDecl kind name.name _).bind fun _ _ => ?_
  exact .spanFrom fun _ => .pure

end

theorem typeDecl (head : MemberHead) (hat : PlainAt all i) : Opens all i 0 0 (typeDecl head) :=
  fix_of (P := fun _ i => PlainAt all i) (fun _ hinner head _ hat => typeDeclOf hinner head hat) hat

theorem namespaceType : Even all namespaceType := by
  refine fun i => (memberHead i).bind fun j head => .get fun s hs =>
    .ite (fun h => (typeDecl head (plainAt_of_isTypeKeyword hs h)).map) fun _ =>
      .ite (fun _ => ?_) fun _ => .failAt
  exact (Opens.skipUntil _).bind fun _ _ => (Opens.expect (by decide) (.plain rfl rfl)).bind fun _ _ => .pure

/-! ### Sources -/

theorem eatWord? (word : String) : Even all (eatWord? word) := by
  refine fun i => .get fun s hs => .ite (fun h => ?_) fun _ => .pure
  rw [ParserState.checkWord, Bool.and_eq_true, decide_eq_true_eq] at h
  have hat : KindAt all i .identifier := h.1 ▸ hs.current.kindAt (by rw [h.1]; decide)
  exact (Opens.advance hat (.plain rfl rfl)).map

theorem usingKind : Even all usingKind := by
  refine fun i => .get fun s hs => .ite (fun h => ?_) fun _ => .ite (fun h => ?_) fun _ => .pure
  · rw [Bool.and_eq_true, decide_eq_true_eq] at h
    have hat : KindAt all i .modifier := h.1 ▸ hs.current.kindAt (by rw [h.1]; decide)
    exact (Opens.advance hat (.plain rfl rfl)).bind fun _ _ => .pure
  · rw [Bool.and_eq_true, decide_eq_true_eq] at h
    have hequal : KindAt all (i + 1) .equal := h.2 ▸ (hs.ahead 1).kindAt (by rw [h.2]; decide)
    exact .past (fun _ h => ⟨_, ident_eq h⟩) (hs.kindAt_of_check (by decide) h.1) (.plain rfl rfl)
      fun _ => .past (fun _ _ => ⟨_, rfl⟩) hequal (.plain rfl rfl) fun _ => .pure

theorem usingDirective : Even all usingDirective := fun i =>
  .peek fun _ _ => (eatWord? _ i).bind fun _ _ => (Opens.expect (by decide) (.plain rfl rfl)).bind fun _ _ =>
    (usingKind _).bind fun _ _ => (type _).bind fun _ _ =>
      (Opens.expect (by decide) (.plain rfl rfl)).bind fun _ _ =>
      .spanFrom fun _ => .pure

section

variable {space : Parser NamespaceDecl} (hspace : Even all space)
include hspace

theorem namespaceItem : Even all (namespaceItem space) := by
  refine fun i => .get fun s _ => .ite (fun _ => ?_) fun _ => .ite (fun _ => ?_) fun _ =>
    .ite (fun _ => ?_) fun _ =>
    .ite (fun _ => ?_) fun _ => (namespaceType i).bind fun _ _ => .pure
  · exact (usingDirective i).bind fun _ _ => .pure
  · exact (attributeList i).bind fun _ _ => .pure
  · exact (hspace i).bind fun _ _ => .pure
  · exact Reads.advance.bind fun _ _ _ _ => Reads.throw

theorem namespaceBody (braced : Bool) : Even all (namespaceBody space braced) := by
  refine fun i => (many (fun j => ?_) i).bind fun _ _ => .pure
  exact .atEnd fun _ => .check (by decide) fun _ _ => .ite (fun _ => .pure) fun _ =>
    (recovering (namespaceItem hspace) j).map

theorem namespaceDeclOf : Even all (namespaceDeclOf space) := by
  refine fun i => (Opens.expect (by decide) (.plain rfl rfl)).bind fun _ _ => Opens.ident.bind fun _ _ =>
    (many (whenever_eat (by decide) (.plain rfl rfl) fun _ => .ident) _).bind fun j _ => ?_
  refine .eat (by decide) (.plain rfl rfl) (fun _ => ?_) ?_
  · extract_lets rest
    have hrest : ∀ j body, Opens all j 0 0 (rest body) := fun _ _ => .spanFrom fun _ => .pure
    exact .ite (fun _ => (namespaceBody hspace false _).bind hrest) (absurd rfl)
  · extract_lets rest
    have hrest : ∀ j body, Opens all j 0 0 (rest body) := fun _ _ => .spanFrom fun _ => .pure
    refine .ite nofun fun _ => (Opens.expect (by decide) (.opener rfl)).bind fun _ _ =>
      (namespaceBody hspace true).opens.bind fun _ _ => closingBrace.bind fun _ _ => ?_
    exact .eat (by decide) (.plain rfl rfl) (fun _ => Opens.pure.bind hrest) (Opens.pure.bind hrest)

end

theorem namespaceDecl : Even all namespaceDecl := fix (fun _ hinner _ => namespaceDeclOf (hinner ())) ()

theorem sourceFile : Even all sourceFile := fun i =>
  .get fun _ _ => (namespaceBody namespaceDecl false i).bind fun _ _ => .pure

end Even

/-- A source is read item by item up to its end. -/
theorem exists_items (s : ParserState) :
    ∃ parts t, Items (namespaceRound false) s parts t ∧ t.unread = [] := by
  refine Items.of_progress (L := fun _ => True) (D := fun t => t.unread = []) (fun s _ => ?_) s trivial
  refine (namespaceRound_outcome false s).mono
    (fun part? t h => ⟨fun hnone => ?_, fun hsome => ⟨trivial, h.2 hsome⟩⟩) fun _ h => h
  exact ParserState.atEnd_iff.1 ((h.1 hnone).resolve_right Bool.false_ne_true)

/-- A source holds what its items hold. -/
theorem Items.sourceFile_eq {s t : ParserState} {parts : List NamespaceBody}
    (h : Items (namespaceRound false) s parts t) :
    sourceFile s = .ok ⟨s.source, (NamespaceBody.concat parts).usings,
      (NamespaceBody.concat parts).attributes, (NamespaceBody.concat parts).members,
        ⟨0, 1, 1, s.stop.offset⟩⟩ t :=
  (bind_eq (p := MonadState.get) rfl _).trans <|
    (bind_eq (p := namespaceBody namespaceDecl false) (bind_eq h.many_eq _) _).trans rfl

end Parser

namespace SourceFile

variable {source : SourceId} {text : String} {file : SourceFile}

theorem ofText_of_ok {t : ParserState} (h : Parser.sourceFile (.ofText source text) = .ok file t) :
    ofText source text = (file, t.errors) := by
  unfold ofText EStateM.run
  rw [h]

theorem parse_of_errors (h : (ofText source text).2 = []) :
    parse source text = .ok (ofText source text).1 := by
  unfold parse
  split
  · rename_i heq
    rw [heq]
  · rename_i hmore heq
    rw [heq] at h
    exact (hmore h).elim

/-- A source without errors is read to the end without one. -/
theorem exists_of_parse (h : parse source text = .ok file) :
    ∃ t, Parser.sourceFile (.ofText source text) = .ok file t ∧ t.errors = [] := by
  unfold parse ofText EStateM.run at h
  cases hresult : Parser.sourceFile (.ofText source text) with
  | ok parsed s =>
      rw [hresult] at h
      dsimp only at h
      split at h
      · rename_i heq
        cases h
        obtain ⟨rfl, herrors⟩ := Prod.mk.inj heq
        exact ⟨s, rfl, herrors⟩
      · cases h
  | error e s =>
      rw [hresult] at h
      dsimp only at h
      split at h
      · rename_i heq
        exact absurd (Prod.mk.inj heq).2 (by simp)
      · cases h

end SourceFile

/-- The brackets of a source that is read without an error balance. -/
theorem TokenStream.balanced_of_parse {source : SourceId} {text : String} {file : SourceFile}
    (h : SourceFile.parse source text = .ok file) : Balanced (ofText text).tokens := by
  have hstart := ParserState.Stands.ofText source text
  obtain ⟨t, hrun, herrors⟩ := SourceFile.exists_of_parse h
  obtain ⟨parts, u, hitems, hend⟩ := Parser.exists_items (.ofText source text)
  obtain ⟨-, rfl⟩ := EStateM.Result.ok.inj (hitems.sourceFile_eq.symm.trans hrun)
  obtain ⟨j, -, hstands, hbalanced⟩ := (Parser.Even.sourceFile 0 _ hstart).of_ok hrun
  have hall : _ = (ofText text).tokens.drop 0 := Token.between_append_drop (Nat.zero_le j)
  rw [← hstands.unread, hend, List.append_nil, List.drop_zero] at hall
  rw [← hall]
  exact (hbalanced herrors).2

end Graft
