/-
Module: Graft.Proofs.Parser.TypePhrases
Purpose: Types are read from the tokens that they are written with.
Main exports: Parser.Consumes, Parser.Begins, Parser.Begins.reads, Parser.NameTokens.consumes

Each phrase of the grammar is read from its tokens if nothing comes next that it could go on with: a dotted
name goes on with a point or an angle bracket, and a type with its suffixes too.  A type with a suffix is
read by going on behind the type before it, so it is kept which suffixes have been read.
-/
import Graft.Proofs.Parser.Agreement
import Graft.Proofs.Parser.Containment
import Graft.Proofs.Parser.Termination
import Graft.Proofs.Syntax.Unplaced

namespace Graft

namespace Parser

variable {α β τ : Type} {s t : ParserState}

/-! ### Phrases and their tokens -/

/-- If nothing of the classes `barred` comes next, the parser passes exactly the tokens `u`, and
yields a value with `Q`. -/
def Consumes (barred : List TokenKind) (Q : α → Prop) (p : Parser α) (u : List Token) : Prop :=
  ∀ s v, s.unread = u ++ v → (s.pass u.length).current.kind ∉ barred →
    ∃ a, p s = .ok a (s.pass u.length) ∧ Q a

/-- A parser that does not fail consumes the tokens that it passes. -/
theorem exists_of_outcome {Q : α → Prop} {p : Parser α}
    (h : Outcome (fun a u => u = t ∧ Q a) (fun _ => False) p s) :
    ∃ a, p s = .ok a t ∧ Q a := by
  obtain ⟨a, u, hp, rfl, ha⟩ := h.exists_ok
  exact ⟨a, hp, ha⟩

/-- An item has yielded some values on the way from one state to another: what it goes
on with comes behind them. -/
def Leads (item : Parser (Option α)) (s : ParserState) (list : List α) (t : ParserState) : Prop :=
  ∀ more u, Items item t more u → Items item s (list ++ more) u

theorem Leads.refl (item : Parser (Option α)) (s : ParserState) : Leads item s [] s := fun _ _ h => h

theorem Leads.step {item : Parser (Option α)} {list : List α} {a : α} {u : ParserState}
    (h : Leads item s list t) (hitem : item t = .ok (some a) u)
    (shorter : u.unread.length < t.unread.length) :
    Leads item s (list ++ [a]) u := fun more w hmore => by
  rw [List.append_assoc]
  exact h _ w (.more hitem shorter hmore)

/-- The class of the first of some tokens comes next. -/
theorem kind_current {a : Token} {u v : List Token} (h : s.unread = a :: u ++ v) : s.current.kind = a.kind :=
  congrArg Token.kind (current_of_unread h)

theorem check_of_kind {kind : TokenKind} (h : s.current.kind = kind) (other : TokenKind) :
    s.check other = decide (kind = other) := by
  rw [ParserState.check, h]

theorem unread_cons {a : Token} {u v : List Token} (h : s.unread = a :: u ++ v) :
    (s.pass 1).unread = u ++ v :=
  unread_pass_one h

/-- Passing some tokens leaves fewer. -/
theorem unread_pass_lt {u v : List Token} (h : s.unread = u ++ v) (hu : u ≠ []) :
    (s.pass u.length).unread.length < s.unread.length := by
  have hpos := List.length_pos_of_ne_nil hu
  rw [unread_pass h, h, List.length_append]
  omega

theorem pass_append (u w : List Token) : s.pass (u ++ w).length = (s.pass u.length).pass w.length := by
  rw [ParserState.pass_pass, List.length_append]

theorem pass_cons (a : Token) (u : List Token) : s.pass (a :: u).length = (s.pass 1).pass u.length :=
  pass_append [a] u

theorem pass_enclosed (a b : Token) (u : List Token) :
    s.pass (a :: (u ++ [b])).length = ((s.pass 1).pass u.length).pass 1 := by
  rw [pass_cons, pass_append]
  rfl

/-- The state behind the first part of some tokens, and what comes there. -/
theorem unread_append {u w v : List Token} (h : s.unread = u ++ w ++ v) :
    (s.pass u.length).unread = w ++ v :=
  unread_pass (by rw [h, List.append_assoc])

/-- What comes behind the first of some tokens in brackets, and the class of the last one. -/
theorem unread_enclosed {a b : Token} {u v : List Token} (h : s.unread = a :: (u ++ [b]) ++ v) :
    (s.pass 1).unread = u ++ b :: v ∧ ((s.pass 1).pass u.length).current.kind = b.kind := by
  have hinside : (s.pass 1).unread = u ++ b :: v := by
    rw [unread_cons h, List.append_assoc]
    rfl
  exact ⟨hinside, congrArg Token.kind (current_of_unread (unread_pass hinside))⟩

/-- As many commas as there are. -/
theorem consumes_commas {u : List Token} (hu : ∀ a ∈ u, a.kind = .comma) :
    Consumes [.comma] (fun n => n = u.length) commas u := fun s v hunread hnext => by
  have hitems : ∀ (w : List Token) (s : ParserState), (∀ a ∈ w, a.kind = .comma) → s.unread = w ++ v →
      (s.pass w.length).current.kind ∉ [TokenKind.comma] → Items (eat? .comma) s w (s.pass w.length) := by
    intro w
    induction w with
    | nil =>
        intro s _ _ hnext
        rw [List.length_nil, ParserState.pass_zero] at hnext ⊢
        exact .done (eat?_eq_none (decide_eq_false fun h => hnext (List.mem_singleton.2 h)))
    | cons a w ih =>
        intro s hw hunread hnext
        have hcomma : s.check .comma = true :=
          decide_eq_true ((kind_current hunread).trans (hw a List.mem_cons_self))
        have hfirst := eat?_eq_some hcomma
        rw [current_of_unread hunread] at hfirst
        rw [pass_cons] at hnext ⊢
        exact .more hfirst (ParserState.pass_lt_of_check (by decide) hcomma)
          (ih _ (fun b hb => hw b (List.mem_cons_of_mem _ hb)) (unread_pass_one hunread) hnext)
  exact ⟨_, bind_eq (hitems u s hu hunread hnext).many_eq _, rfl⟩

/-! ### Types -/

/-- A dotted name can go on with these. -/
def nameGoesOn : List TokenKind := [.dot, .doubleColon, .less]

/-- A type can go on with these. -/
def typeGoesOn : List TokenKind := [.question, .star, .leftBracket] ++ nameGoesOn

/-- A type starts with one of these. -/
def typeStarts : List TokenKind := [.predefinedType, .leftParen, .identifier]

/-- A type with some suffixes is read from some tokens, and may go on with further suffixes. -/
def Begins (type : TypeSyntax) (u : List Token) : Prop :=
  ∀ s v, s.unread = u ++ v → (s.pass u.length).current.kind ∉ nameGoesOn →
    s.current.kind ∈ typeStarts ∧
    ∃ base t suffixes, baseType Parser.type s = .ok base t ∧
      Leads (typeSuffix base.span) t suffixes (s.pass u.length) ∧
      type.unplaced = (suffixes.foldl (fun type suffix => suffix type) base).unplaced

/-- The tokens of a whole type. -/
abbrev TypeTokens (type : TypeSyntax) (u : List Token) : Prop :=
  Consumes typeGoesOn (EqualBy TypeSyntax.unplaced type) Parser.type u

/-- No suffix comes next. -/
theorem typeSuffix_eq_none (hnext : s.current.kind ∉ typeGoesOn) (start : Span) :
    typeSuffix start s = .ok none s := by
  have hother : s.check .question = false ∧ s.check .star = false ∧ s.check .leftBracket = false := by
    simp only [ParserState.check, decide_eq_false_iff_not]
    refine ⟨?_, ?_, ?_⟩ <;> (intro h; rw [h] at hnext; exact hnext (by decide))
  change (if s.check .question = true then _ else if s.check .star = true then _ else
    if isRankSpecifier s = true then _ else _ : Parser (Option (TypeSyntax → TypeSyntax))) s = _
  rw [isRankSpecifier, hother.1, hother.2.1, hother.2.2]
  rfl

/-- A type that has begun is read if no further suffix comes. -/
theorem Begins.reads {type : TypeSyntax} {u : List Token} (h : Begins type u) : TypeTokens type u := by
  intro s v hunread hnext
  obtain ⟨-, base, t, suffixes, hbase, leads, hsame⟩ :=
    h s v hunread fun hmem => hnext (List.mem_append_right _ hmem)
  have hmany := (leads [] _ (.done (typeSuffix_eq_none hnext base.span))).many_eq
  rw [List.append_nil] at hmany
  exact ⟨_, (congrFun (type_recurs.eq ()) s).trans ((bind_eq hbase _).trans (bind_eq hmany _)), hsame⟩

/-- A type without suffixes. -/
theorem Begins.base {type : TypeSyntax} {u : List Token}
    (h : Consumes nameGoesOn (EqualBy TypeSyntax.unplaced type) (baseType Parser.type) u)
    (starts : ∃ a rest, u = a :: rest ∧ a.kind ∈ typeStarts) : Begins type u := by
  intro s v hunread hnext
  obtain ⟨base, hbase, hsame⟩ := h s v hunread hnext
  obtain ⟨a, rest, rfl, hkind⟩ := starts
  exact ⟨kind_current hunread ▸ hkind, base, _, [], hbase, .refl _ _, hsame⟩

/-- A type with one more suffix. -/
theorem Begins.suffix {inner type : TypeSyntax} {u w : List Token} {a : Token} {rest : List Token}
    (h : Begins inner u) (hw : w = a :: rest) (hkind : a.kind ∉ nameGoesOn)
    (hsuffix : ∀ start s v, s.unread = w ++ v → ∃ f, typeSuffix start s = .ok (some f) (s.pass w.length) ∧
      ∀ b : TypeSyntax, inner.unplaced = b.unplaced → type.unplaced = (f b).unplaced) :
      Begins type (u ++ w) := by
  intro s v hunread _
  have hbehind := unread_append hunread
  have hcurrent : (s.pass u.length).current.kind ∉ nameGoesOn := by
    rw [hw] at hbehind
    rwa [kind_current hbehind]
  obtain ⟨starts, base, t, suffixes, hbase, leads, hsame⟩ :=
    h s (w ++ v) (by rw [hunread, List.append_assoc]) hcurrent
  obtain ⟨f, hf, hmake⟩ := hsuffix base.span _ v hbehind
  refine ⟨starts, base, t, suffixes ++ [f], hbase, ?_, ?_⟩
  · rw [pass_append]
    exact leads.step hf (unread_pass_lt hbehind (by rw [hw]; exact List.cons_ne_nil _ _))
  · rw [List.foldl_append]
    exact hmake _ hsame

theorem begins_nullable {inner : TypeSyntax} {span : Span} {u : List Token} {a : Token} (h : Begins inner u)
    (ha : a.kind = .question) : Begins (.nullable inner span) (u ++ [a]) := by
  refine h.suffix rfl (by rw [ha]; decide) fun start s v hunread =>
    ⟨(.nullable · ((s.pass 1).spanFrom start)), ?_, ?_⟩
  · change (if s.check .question = true then _ else _ : Parser (Option (TypeSyntax → TypeSyntax))) s = _
    rw [check_of_kind ((kind_current hunread).trans ha)]
    rfl
  · intro b hb
    rw [TypeSyntax.unplaced, TypeSyntax.unplaced, hb]

theorem begins_pointer {inner : TypeSyntax} {span : Span} {u : List Token} {a : Token} (h : Begins inner u)
    (ha : a.kind = .star) : Begins (.pointer inner span) (u ++ [a]) := by
  refine h.suffix rfl (by rw [ha]; decide) fun start s v hunread =>
    ⟨(.pointer · ((s.pass 1).spanFrom start)), ?_, ?_⟩
  · have hkind := (kind_current hunread).trans ha
    change (if s.check .question = true then _ else if s.check .star = true then _ else _ :
      Parser (Option (TypeSyntax → TypeSyntax))) s = _
    rw [check_of_kind hkind, check_of_kind hkind]
    rfl
  · intro b hb
    rw [TypeSyntax.unplaced, TypeSyntax.unplaced, hb]

theorem begins_array {element : TypeSyntax} {rank : Nat} {span : Span} {u w : List Token} {a b : Token}
    (h : Begins element u) (ha : a.kind = .leftBracket) (hw : ∀ c ∈ w, c.kind = .comma)
    (hb : b.kind = .rightBracket) (hrank : w.length + 1 = rank) :
    Begins (.array element rank span) (u ++ (a :: (w ++ [b]))) := by
  refine h.suffix rfl (by rw [ha]; decide) fun start s v hunread => ?_
  have hkind := (kind_current hunread).trans ha
  obtain ⟨hinside, hbehind⟩ := unread_enclosed hunread
  have hclosing : ((s.pass 1).pass w.length).check .rightBracket = true := decide_eq_true (hbehind.trans hb)
  have hspecifier : isRankSpecifier s = true := by
    have hdrop : (s.unread.drop 1).dropWhile (·.kind = .comma) = b :: v := by
      rw [show s.unread.drop 1 = w ++ (b :: v) from hinside,
        List.dropWhile_append_of_pos (by simpa using hw), List.dropWhile_cons_of_neg (by simp [hb])]
    rw [isRankSpecifier, hdrop, check_of_kind hkind]
    simp [hb]
  obtain ⟨n, hcommas, rfl⟩ := consumes_commas hw (s.pass 1) (b :: v) hinside (by
    rw [hbehind, hb]
    decide)
  refine ⟨(.array · (w.length + 1) ((s.pass (a :: (w ++ [b])).length).spanFrom start)), ?_, ?_⟩
  · change (if s.check .question = true then _ else if s.check .star = true then _ else
      if isRankSpecifier s = true then _ else _ : Parser (Option (TypeSyntax → TypeSyntax))) s = _
    rw [hspecifier, check_of_kind hkind, check_of_kind hkind, pass_enclosed]
    exact (bind_eq (p := advance) rfl _).trans ((bind_eq hcommas _).trans (bind_eq (expect_eq hclosing) _))
  · intro c hc
    rw [TypeSyntax.unplaced, TypeSyntax.unplaced, hc, hrank]

/-! ### Lists of types -/

/-- The tokens of some phrases with tokens of one class between them. -/
inductive Listed (separator : TokenKind) (Phrase : τ → List Token → Prop) : List τ → List Token → Prop where
  | last {a : τ} {u : List Token} (phrase : Phrase a u) : Listed separator Phrase [a] u
  | more {a : τ} {u w : List Token} {between : Token} {rest : List τ} (phrase : Phrase a u)
      (hbetween : between.kind = separator) (later : Listed separator Phrase rest w) :
      Listed separator Phrase (a :: rest) (u ++ between :: w)

/-- A list is read item by item up to where no comma comes. -/
theorem Listed.consumes {Phrase : τ → List Token → Prop} {Same : τ → α → Prop} {item : Parser α}
    {barred : List TokenKind} (forward : Forward item)
    (hitem : ∀ a u, Phrase a u → Consumes barred (Same a) item u) (hcomma : .comma ∉ barred)
    {list : List τ} {u : List Token} (h : Listed .comma Phrase list u) :
    Consumes (.comma :: barred) (List.Forall₂ Same list) (separated item) u := by
  rw [separated_eq forward]
  induction h with
  | last phrase =>
      intro s v hunread hnext
      obtain ⟨b, hb, hsame⟩ := hitem _ _ phrase s v hunread fun hmem => hnext (List.mem_cons_of_mem _ hmem)
      refine ⟨[b], (bind_eq hb _).trans ((bind_eq (eat_eq ?_) _).trans rfl), .cons hsame .nil⟩
      exact decide_eq_false fun heq => hnext (heq ▸ List.mem_cons_self)
  | @more a u w comma rest phrase hkind _ ih =>
      intro s v hunread hnext
      have hbehind := unread_append hunread
      have hcheck := (kind_current hbehind).trans hkind
      obtain ⟨b, hb, hsame⟩ := hitem _ _ phrase s (comma :: w ++ v) (by rw [hunread, List.append_assoc])
        (by rw [hcheck]; exact hcomma)
      rw [pass_append, pass_cons] at hnext ⊢
      obtain ⟨bs, hbs, hall⟩ := ih ((s.pass u.length).pass 1) v (unread_pass_one hbehind) hnext
      refine ⟨b :: bs, (bind_eq hb _).trans ((bind_eq (eat_eq_true (decide_eq_true hcheck)) _).trans ?_),
        .cons hsame hall⟩
      rw [← separated_eq forward] at hbs
      exact bind_eq hbs _

theorem forward_type :
    Forward Parser.type := fun tokens => (ParserState.invariant_suffix tokens).body.type.keeps

/-- Type arguments between angle brackets. -/
theorem consumes_typeArgs {args : List TypeSyntax} {less greater : Token} {u : List Token}
    (hless : less.kind = .less) (h : Listed .comma Begins args u) (hgreater : greater.kind = .greater) :
    Consumes [] (List.Forall₂ (EqualBy TypeSyntax.unplaced) args) (typeArgs Parser.type)
      (less :: (u ++ [greater])) := by
  intro s v hunread _
  obtain ⟨hinside, hbehind⟩ := unread_enclosed hunread
  have hclosing : ((s.pass 1).pass u.length).current.kind = .greater := hbehind.trans hgreater
  have hstart : (s.pass 1).current.kind ∈ typeStarts := by
    have hbegins : ∀ (type : TypeSyntax) (w v : List Token), Begins type w → (s.pass 1).unread = w ++ v →
        ((s.pass 1).pass w.length).current.kind ∉ nameGoesOn → (s.pass 1).current.kind ∈ typeStarts :=
      fun _ w v hbegins hunread hnext => (hbegins _ v hunread hnext).1
    cases h with
    | last phrase => exact hbegins _ u _ phrase hinside (by rw [hclosing]; decide)
    | @more a w rest comma _ phrase hcomma _ =>
        rw [List.append_assoc] at hinside
        refine hbegins _ w _ phrase hinside ?_
        rw [current_of_unread (unread_pass hinside), hcomma]
        decide
  have hother : (s.pass 1).check .greater = false ∧ (s.pass 1).check .comma = false := by
    simp only [ParserState.check, decide_eq_false_iff_not]
    refine ⟨?_, ?_⟩ <;> (intro hkind; rw [hkind] at hstart; exact absurd hstart (by decide))
  have hreads : ∀ type u, Begins type u → TypeTokens type u := fun _ _ => Begins.reads
  have hconsumes : Consumes (.comma :: typeGoesOn) (List.Forall₂ (EqualBy TypeSyntax.unplaced) args)
      (separated Parser.type) u :=
    h.consumes forward_type hreads (by decide)
  obtain ⟨list, hlist, hsame⟩ := hconsumes (s.pass 1) _ hinside (by rw [hclosing]; decide)
  refine ⟨list, ?_, hsame⟩
  refine (bind_eq (expect_eq (decide_eq_true ((kind_current hunread).trans hless))) _).trans ?_
  change (if ((s.pass 1).check .greater || (s.pass 1).check .comma) = true then _ else
    _ : Parser (List TypeSyntax)) (s.pass 1) = _
  rw [hother.1, hother.2, pass_enclosed]
  exact (bind_eq hlist _).trans (bind_eq (expect_eq (decide_eq_true hclosing)) _)

/-- Type arguments that are left out, with the commas between them. -/
theorem consumes_unboundArgs {less greater : Token} {u : List Token} (hless : less.kind = .less)
    (hu : ∀ c ∈ u, c.kind = .comma) (hgreater : greater.kind = .greater) :
    Consumes [] (fun args => args = []) (typeArgs Parser.type) (less :: (u ++ [greater])) := by
  intro s v hunread _
  obtain ⟨hinside, hbehind⟩ := unread_enclosed hunread
  have hclosing : ((s.pass 1).pass u.length).current.kind = .greater := hbehind.trans hgreater
  have hstart : ((s.pass 1).check .greater || (s.pass 1).check .comma) = true := by
    cases u with
    | nil =>
        rw [List.length_nil, ParserState.pass_zero] at hclosing
        rw [check_of_kind hclosing]
        rfl
    | cons c u =>
        rw [check_of_kind ((kind_current hinside).trans (hu c List.mem_cons_self)), Bool.or_eq_true]
        exact .inr (decide_eq_true ((kind_current hinside).trans (hu c List.mem_cons_self)))
  obtain ⟨n, hcommas, -⟩ := consumes_commas hu (s.pass 1) _ hinside (by rw [hclosing]; decide)
  refine ⟨[], ?_, rfl⟩
  refine (bind_eq (expect_eq (decide_eq_true ((kind_current hunread).trans hless))) _).trans ?_
  change (if ((s.pass 1).check .greater || (s.pass 1).check .comma) = true then _ else
    _ : Parser (List TypeSyntax)) (s.pass 1) = _
  rw [hstart, pass_enclosed]
  exact (bind_eq hcommas _).trans (bind_eq (expect_eq (decide_eq_true hclosing)) _)

/-! ### Dotted names -/

/-- The tokens of a segment of a dotted name, which may have type arguments or not. -/
inductive SegmentTokens : Bool → TypeSegment → List Token → Prop where
  | plain {withArgs : Bool} {name : Ident} {a : Token} (kind : a.kind = .identifier)
      (hname : a.name = name.name) :
      SegmentTokens withArgs ⟨name, []⟩ [a]
  | unbound {name : Ident} {a less greater : Token} {u : List Token} (kind : a.kind = .identifier)
      (hname : a.name = name.name) (hless : less.kind = .less) (commas : ∀ c ∈ u, c.kind = .comma)
      (hgreater : greater.kind = .greater) : SegmentTokens true ⟨name, []⟩ (a :: less :: (u ++ [greater]))
  | generic {name : Ident} {args : List TypeSyntax} {a less greater : Token} {u : List Token}
      (kind : a.kind = .identifier) (hname : a.name = name.name) (hless : less.kind = .less)
      (listed : Listed .comma Begins args u) (hgreater : greater.kind = .greater) :
      SegmentTokens true ⟨name, args⟩ (a :: less :: (u ++ [greater]))

variable {withArgs : Bool}

/-- A segment starts with its name, and goes on with its type arguments. -/
theorem SegmentTokens.starts {segment : TypeSegment} {u : List Token}
    (h : SegmentTokens withArgs segment u) :
    ∃ a rest, u = a :: rest ∧ a.kind = .identifier ∧ ∀ b ∈ rest.head?, b.kind = .less := by
  cases h with
  | plain kind _ => exact ⟨_, [], rfl, kind, nofun⟩
  | unbound kind _ hless _ _ => exact ⟨_, _, rfl, kind, by simpa using hless⟩
  | generic kind _ hless _ _ => exact ⟨_, _, rfl, kind, by simpa using hless⟩

/-- A segment with type arguments is read as its name and they are. -/
theorem typeSegment_withArgs {a less : Token} {Q : List TypeSyntax → Prop} {u v : List Token}
    (kind : a.kind = .identifier) (hless : less.kind = .less)
    (hargs : Consumes [] Q (typeArgs Parser.type) (less :: u)) (hunread : s.unread = a :: less :: u ++ v) :
    ∃ args, typeSegment Parser.type true s = .ok ⟨⟨a.name, a.span⟩, args⟩ (s.pass (a :: less :: u).length) ∧
    Q args := by
  have hident := fun kind => ident_eq (s := s) kind
  rw [current_of_unread hunread, kind] at hident
  have hbehind := unread_cons hunread
  have hcheck : (s.pass 1).check .less = true := decide_eq_true ((kind_current hbehind).trans hless)
  obtain ⟨args, hread, hQ⟩ := hargs (s.pass 1) v hbehind List.not_mem_nil
  rw [pass_cons]
  refine ⟨args, (bind_eq (hident rfl) _).trans ?_, hQ⟩
  change (if (true && (s.pass 1).check .less) = true then _ else _ : Parser TypeSegment) (s.pass 1) = _
  rw [hcheck]
  exact bind_eq hread _

theorem SegmentTokens.consumes {segment : TypeSegment} {u : List Token}
    (h : SegmentTokens withArgs segment u) :
    Consumes [.less] (EqualBy TypeSegment.unplaced segment) (typeSegment Parser.type withArgs) u := by
  intro s v hunread hnext
  cases h with
  | @plain _ name a kind hname =>
      have hident := ident_eq ((kind_current hunread).trans kind)
      rw [current_of_unread hunread] at hident
      have hless : (withArgs && (s.pass 1).check .less) = false := by
        have hcheck : (s.pass 1).check .less = false :=
          decide_eq_false fun heq => hnext (List.mem_singleton.2 heq)
        rw [hcheck, Bool.and_false]
      refine ⟨⟨⟨a.name, a.span⟩, []⟩, (bind_eq hident _).trans ?_, ?_⟩
      · change (if (withArgs && (s.pass 1).check .less) = true then _ else _ : Parser TypeSegment)
          (s.pass 1) = _
        rw [hless]
        rfl
      · rw [EqualBy, TypeSegment.unplaced, TypeSegment.unplaced, Ident.unplaced, Ident.unplaced, hname]
  | unbound kind hname hless commas hgreater =>
      obtain ⟨_, hread, rfl⟩ :=
        typeSegment_withArgs kind hless (consumes_unboundArgs hless commas hgreater) hunread
      refine ⟨_, hread, ?_⟩
      rw [EqualBy, TypeSegment.unplaced, TypeSegment.unplaced, Ident.unplaced, Ident.unplaced, hname]
  | generic kind hname hless listed hgreater =>
      obtain ⟨list, hread, hsame⟩ :=
        typeSegment_withArgs kind hless (consumes_typeArgs hless listed hgreater) hunread
      refine ⟨_, hread, ?_⟩
      rw [EqualBy, TypeSegment.unplaced, TypeSegment.unplaced, Ident.unplaced, Ident.unplaced, hname,
        TypeSyntax.unplacedArgs_eq, TypeSyntax.unplacedArgs_eq, forall₂_iff_map_eq.1 hsame]

/-- The tokens of segments with points between them. -/
def SegmentsTokens (withArgs : Bool) : List TypeSegment → List Token → Prop :=
  Listed .dot (SegmentTokens withArgs)

/-- Segments start with a name, behind which no qualifier ends. -/
theorem SegmentsTokens.starts {segments : List TypeSegment} {u : List Token}
    (h : SegmentsTokens withArgs segments u) :
    ∃ a rest, u = a :: rest ∧ a.kind = .identifier ∧ ∀ b ∈ rest.head?, b.kind ≠ .doubleColon := by
  have hother : ∀ {b : Token} {kind : TokenKind}, b.kind = kind → kind ≠ .doubleColon →
      b.kind ≠ .doubleColon :=
    fun h hne => h ▸ hne
  cases h with
  | last phrase =>
      obtain ⟨a, rest, rfl, kind, hrest⟩ := phrase.starts
      exact ⟨a, rest, rfl, kind, fun b hb => hother (hrest b hb) (by decide)⟩
  | more phrase hdot _ =>
      obtain ⟨a, rest, rfl, kind, hrest⟩ := phrase.starts
      refine ⟨a, _, rfl, kind, fun b hb => ?_⟩
      cases rest with
      | nil =>
          obtain rfl : _ = b := Option.some.inj hb
          exact hother hdot (by decide)
      | cons c rest => exact hother (hrest b hb) (by decide)

/-- Segments are read one after another, the further ones each behind a point. -/
theorem SegmentsTokens.items {segments : List TypeSegment} {u : List Token}
    (h : SegmentsTokens withArgs segments u) :
    ∀ s v, s.unread = u ++ v → (s.pass u.length).current.kind ∉ nameGoesOn →
      ∃ first t more, typeSegment Parser.type withArgs s = .ok first t ∧ t.unread.length ≤ s.unread.length ∧
        Items (segmentRound withArgs) t more (s.pass u.length) ∧
        List.Forall₂ (EqualBy TypeSegment.unplaced) segments (first :: more) := by
  have hle : ∀ (s : ParserState) (n : Nat), (s.pass n).unread.length ≤ s.unread.length := fun s n => by
    rw [ParserState.unread_pass, List.length_drop]
    omega
  induction h with
  | @last segment u phrase =>
      intro s v hunread hnext
      obtain ⟨first, hfirst, hsame⟩ := phrase.consumes s v hunread fun hless =>
        hnext (List.mem_singleton.1 hless ▸ by decide)
      have hdot : (s.pass u.length).check .dot = false := decide_eq_false fun heq => hnext (heq ▸ by decide)
      refine ⟨first, _, [], hfirst, hle s _, .done ?_, .cons hsame .nil⟩
      change (if ((s.pass u.length).check .dot && _) = true then _ else _ : Parser (Option TypeSegment)) _
        = _
      rw [hdot]
      rfl
  | @more segment u w dot rest phrase hdot later ih =>
      intro s v hunread hnext
      have hbehind := unread_append hunread
      have hkind := (kind_current hbehind).trans hdot
      have hinside := unread_cons hbehind
      rw [pass_append, pass_cons] at hnext ⊢
      obtain ⟨first, hfirst, hsame⟩ := phrase.consumes s (dot :: w ++ v) (by rw [hunread, List.append_assoc])
        (by rw [hkind]; decide)
      obtain ⟨next, t, more, hnextSegment, hshort, hitems, hall⟩ :=
        ih ((s.pass u.length).pass 1) v hinside hnext
      obtain ⟨a, tail, hw, hident, -⟩ := SegmentsTokens.starts later
      have hround : segmentRound withArgs (s.pass u.length) = .ok (some next) t := by
        have hahead : ((s.pass u.length).ahead 1).kind = .identifier := by
          rw [← current_pass]
          rw [hw] at hinside
          rw [kind_current hinside, hident]
        change (if ((s.pass u.length).check .dot &&
          decide (((s.pass u.length).ahead 1).kind = .identifier)) = true
          then _ else _ : Parser (Option TypeSegment)) _ = _
        rw [hahead, check_of_kind hkind]
        exact (bind_eq (p := advance) rfl _).trans (map_eq hnextSegment _)
      exact ⟨first, _, next :: more, hfirst, hle s _, .more hround
        (Nat.lt_of_le_of_lt hshort (ParserState.pass_lt_of_check (by decide) (decide_eq_true hkind))) hitems,
        .cons hsame hall⟩

/-- The tokens of a dotted name. -/
inductive NameTokens (withArgs : Bool) : NamedType → List Token → Prop where
  | plain {segments : List TypeSegment} {span : Span} {u : List Token}
      (h : SegmentsTokens withArgs segments u) :
      NameTokens withArgs ⟨none, segments, span⟩ u
  | qualified {qualifier : Ident} {segments : List TypeSegment} {span : Span} {a colons : Token}
      {u : List Token}
      (kind : a.kind = .identifier) (hname : a.name = qualifier.name) (hcolons : colons.kind = .doubleColon)
      (h : SegmentsTokens withArgs segments u) : NameTokens withArgs ⟨some qualifier, segments, span⟩
      (a :: colons :: u)

theorem NameTokens.starts {name : NamedType} {u : List Token} (h : NameTokens withArgs name u) :
    ∃ a rest, u = a :: rest ∧ a.kind = .identifier := by
  cases h with
  | plain h =>
      obtain ⟨a, rest, hu, kind, -⟩ := h.starts
      exact ⟨a, rest, hu, kind⟩
  | qualified kind _ _ _ => exact ⟨_, _, rfl, kind⟩

theorem NameTokens.consumes {name : NamedType} {u : List Token} (h : NameTokens withArgs name u) :
    Consumes nameGoesOn (EqualBy NamedType.unplaced name) (namedTypeOf Parser.type withArgs) u := by
  intro s v hunread hnext
  refine exists_of_outcome <| .peek <| .check <| .kindAhead ?_
  extract_lets rest
  -- what comes behind the qualifier
  have hrest : ∀ {segments : List TypeSegment} {span : Span} {qualifier? : Option Ident}
      (found? : Option Ident) {t : ParserState} {w : List Token},
      SegmentsTokens withArgs segments w → t.unread = w ++ v →
      t.pass w.length = s.pass u.length → qualifier?.map Ident.unplaced = found?.map Ident.unplaced →
      Outcome (fun a t => t = s.pass u.length ∧ EqualBy NamedType.unplaced ⟨qualifier?, segments, span⟩ a)
        (fun _ => False) (rest found?) t := by
    intro segments span qualifier? found? t w h hunread hpass hqualifier
    obtain ⟨first, _, more, hfirst, -, hitems, hall⟩ := h.items t v hunread (hpass ▸ hnext)
    rw [hpass] at hitems
    refine .after hfirst <| .after hitems.many_eq <| .spanFrom <| .pure ⟨rfl, ?_⟩
    rw [EqualBy, NamedType.unplaced_eq, NamedType.unplaced_eq, hqualifier, forall₂_iff_map_eq.1 hall]
  cases h with
  | plain h =>
      obtain ⟨a, tail, rfl, kind, htail⟩ := h.starts
      have hahead : (s.ahead 1).kind ≠ .doubleColon := by
        rw [← current_pass]
        cases tail with
        | nil => exact fun heq => hnext (heq ▸ by decide)
        | cons b tail =>
            rw [kind_current (unread_cons hunread)]
            exact htail b rfl
      refine .ite (fun htrue => ?_) fun _ => hrest none h hunread rfl rfl
      rw [Bool.and_eq_true, decide_eq_true_eq] at htrue
      exact absurd htrue.2 hahead
  | @qualified qualifier segments span a colons w kind hname hcolons h =>
      have hbehind := unread_cons hunread
      have hkind := (kind_current hunread).trans kind
      have hident := ident_eq hkind
      rw [current_of_unread hunread] at hident
      have hahead : (s.ahead 1).kind = .doubleColon := by
        rw [← current_pass, kind_current hbehind, hcolons]
      refine .ite (fun _ => .after hident <| .after (p := advance) rfl <| .after (p := Pure.pure _) rfl ?_)
        fun hfalse => ?_
      · refine hrest (some ⟨a.name, a.span⟩) h (unread_cons hbehind) (by rw [pass_cons, pass_cons]) ?_
        rw [Option.map_some, Option.map_some, Ident.unplaced, Ident.unplaced, hname]
      · rw [Bool.and_eq_true, decide_eq_true_eq] at hfalse
        exact absurd ⟨decide_eq_true hkind, hahead⟩ hfalse

/-! ### Types without suffixes -/

/-- The tokens of an element of a tuple. -/
inductive ElementTokens : TupleElement TypeSyntax Ident → List Token → Prop where
  | plain {type : TypeSyntax} {u : List Token} (h : Begins type u) : ElementTokens ⟨type, none⟩ u
  | named {type : TypeSyntax} {name : Ident} {a : Token} {u : List Token} (h : Begins type u)
      (kind : a.kind = .identifier) (hname : a.name = name.name) : ElementTokens ⟨type, some name⟩ (u ++ [a])

/-- An element of a tuple. -/
def tupleElement : Parser (TupleElement TypeSyntax Ident) := do
  let type ← Parser.type
  let name? ← whenever (check .identifier) ident
  return ⟨type, name?⟩

theorem ElementTokens.consumes {element : TupleElement TypeSyntax Ident} {u : List Token}
    (h : ElementTokens element u) :
    Consumes (.identifier :: typeGoesOn) (EqualBy TypeSyntax.unplacedElement element) tupleElement u := by
  intro s v hunread hnext
  cases h with
  | @plain type _ h =>
      obtain ⟨t, ht, hsame⟩ := h.reads s v hunread fun hmem => hnext (List.mem_cons_of_mem _ hmem)
      have hkind : (s.pass u.length).check .identifier = false :=
        decide_eq_false fun heq => hnext (heq ▸ List.mem_cons_self)
      refine exists_of_outcome <| .after ht <| .after (p := whenever _ _) (a := none)
        (t := s.pass u.length) ?_ <| .pure ⟨rfl, ?_⟩
      · change (if (s.pass u.length).check .identifier = true then _ else _ : Parser (Option Ident)) _ = _
        rw [hkind]
        rfl
      · rw [EqualBy, TypeSyntax.unplacedElement, TypeSyntax.unplacedElement, hsame]
  | @named type name a w h kind hname =>
      have hbehind := unread_append hunread
      have hkind := (kind_current hbehind).trans kind
      obtain ⟨t, ht, hsame⟩ :=
        h.reads s (a :: v) (by rw [hunread, List.append_assoc]; rfl) (by rw [hkind]; decide)
      have hident := ident_eq hkind
      rw [current_of_unread hbehind] at hident
      refine exists_of_outcome <| .after ht <| .after (p := whenever _ _) (a := some ⟨a.name, a.span⟩)
        (t := (s.pass w.length).pass 1) ?_ <| .pure ⟨(pass_append w [a]).symm, ?_⟩
      · change (if (s.pass w.length).check .identifier = true then _ else _ : Parser (Option Ident)) _ = _
        rw [check_of_kind hkind]
        exact map_eq hident _
      · rw [EqualBy, TypeSyntax.unplacedElement, TypeSyntax.unplacedElement, hsame, Option.map_some,
          Option.map_some, Ident.unplaced, Ident.unplaced, hname]

theorem begins_predefined {keyword : String} {span : Span} {a : Token}
    (h : a.mark = (.predefinedType, keyword)) :
    Begins (.predefined keyword span) [a] := by
  have hkind : a.kind = .predefinedType := congrArg Prod.fst h
  refine .base (fun s v hunread _ => exists_of_outcome <| .peek ?_) ⟨a, [], rfl, by rw [hkind]; decide⟩
  rw [current_of_unread hunread, hkind]
  refine .after (p := advance) rfl <| .pure ⟨rfl, ?_⟩
  rw [EqualBy, TypeSyntax.unplaced, TypeSyntax.unplaced, show a.lexeme = keyword from congrArg Prod.snd h]

theorem begins_named {name : NamedType} {u : List Token} (h : NameTokens true name u) :
    Begins (.named name) u := by
  obtain ⟨a, rest, hu, hkind⟩ := h.starts
  refine .base (fun s v hunread hnext => exists_of_outcome <| .peek ?_) ⟨a, rest, hu, by rw [hkind]; decide⟩
  obtain ⟨found, hfound, hsame⟩ := h.consumes s v hunread hnext
  rw [hu] at hunread
  rw [kind_current hunread, hkind]
  refine .of_eq (map_eq hfound _) ⟨rfl, ?_⟩
  rw [EqualBy, TypeSyntax.unplaced, TypeSyntax.unplaced, hsame]

theorem begins_tuple {elements : List (TupleElement TypeSyntax Ident)} {span : Span}
    {opening closing : Token} {u : List Token} (hopening : opening.kind = .leftParen)
    (h : Listed .comma ElementTokens elements u) (hclosing : closing.kind = .rightParen) :
    Begins (.tuple elements span) (opening :: (u ++ [closing])) := by
  have hforward : Forward tupleElement :=
    forward_type.bind fun _ => .bind (.whenever (.check _) .ident) fun _ => .pure
  refine .base (fun s v hunread _ => exists_of_outcome <| .peek ?_)
    ⟨opening, _, rfl, by rw [hopening]; decide⟩
  have hkind := (kind_current hunread).trans hopening
  obtain ⟨hinside, hlast⟩ := unread_enclosed hunread
  have hbehind : ((s.pass 1).pass u.length).current.kind = .rightParen := hlast.trans hclosing
  have hreads : ∀ element w, ElementTokens element w →
      Consumes (.identifier :: typeGoesOn) (EqualBy TypeSyntax.unplacedElement element) tupleElement w :=
    fun _ _ => ElementTokens.consumes
  obtain ⟨list, hlist, hsame⟩ :=
    h.consumes hforward hreads (by decide) (s.pass 1) _ hinside (by rw [hbehind]; decide)
  rw [hkind]
  refine .after (expect_eq (decide_eq_true hkind)) <| .after hlist <|
    .after (expect_eq (decide_eq_true hbehind)) <|
    .spanFrom <| .pure ⟨(pass_enclosed opening closing u).symm, ?_⟩
  rw [EqualBy, TypeSyntax.unplaced, TypeSyntax.unplaced, TypeSyntax.unplacedElements_eq,
    TypeSyntax.unplacedElements_eq, forall₂_iff_map_eq.1 hsame]

end Parser

end Graft
