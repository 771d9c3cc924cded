/-
Module: Graft.Proofs.Parser.Deliveries
Purpose: Parsers that come through known tokens of a source without an error.
Main exports: Parser.nextKind, Parser.Delivers, Parser.Delivers.bind, Parser.DeliversAll.many,
  Parser.parse_of_delivers

What a parser does is told from the tokens that come next.  Where these are known, it comes from one of them
to a later one and reports nothing.  Parsers that follow one another come as far as all of them do, and so a
whole source is read part by part.
-/
import Graft.Proofs.Parser.Repeated
import Graft.Proofs.Parser.TypePhrases

namespace Graft.Parser

variable {α β : Type} {all u v w : List Token} {i j k : Nat} {s : ParserState} {t : Token}

/-! ### Known tokens -/

/-- The class of the token number `i`; behind the last one, the class of what marks the end. -/
def nextKind (all : List Token) (i : Nat) : TokenKind := (all[i]?.map Token.kind).getD .endOfFile

theorem getElem?_of_drop (h : all.drop i = t :: v) : all[i]? = some t := by
  rw [← List.head?_drop, h]
  rfl

theorem nextKind_of_drop (h : all.drop i = t :: v) : nextKind all i = t.kind := by
  rw [nextKind, getElem?_of_drop h]
  rfl

/-- The first of some tokens is the next one. -/
theorem nextKind_of_append (h : all.drop i = t :: u ++ v) : nextKind all i = t.kind := nextKind_of_drop h

/-- What stands behind some of the tokens. -/
theorem drop_of_append (h : all.drop i = u ++ v) : all.drop (i + u.length) = v := by
  rw [← List.drop_drop, h, List.drop_left]

theorem drop_of_cons (h : all.drop i = t :: v) : all.drop (i + 1) = v := drop_of_append (u := [t]) h

theorem kind_ahead_of_stands (hs : s.Stands all i) (n : Nat) : (s.ahead n).kind = nextKind all (i + n) := by
  rw [ParserState.ahead, hs.unread, List.getElem?_drop, nextKind]
  cases all[i + n]? <;> rfl

theorem kind_of_stands (hs : s.Stands all i) : s.current.kind = nextKind all i := kind_ahead_of_stands hs 0

theorem current_of_stands (hs : s.Stands all i) (h : all[i]? = some t) : s.current = t := by
  rw [ParserState.current, ParserState.ahead, hs.unread, List.getElem?_drop, Nat.add_zero, h]
  rfl

theorem check_of_stands (hs : s.Stands all i) (kind : TokenKind) :
    s.check kind = decide (nextKind all i = kind) := by
  rw [ParserState.check, kind_of_stands hs]

theorem atEnd_of_stands (hs : s.Stands all i) : s.atEnd = decide (all.length ≤ i) := by
  rw [Bool.eq_iff_iff, ParserState.atEnd_iff, hs.unread, List.drop_eq_nil_iff, decide_eq_true_eq]

/-! ### Deliveries -/

/-- Before the token number `i`, with nothing reported, the parser comes to the one number `j`, reports
nothing and yields a value with `Q`. -/
def Delivers (all : List Token) (i j : Nat) (Q : α → Prop) (p : Parser α) : Prop :=
  ∀ s, s.Stands all i → s.errors = [] →
    Outcome (fun a t => t.Stands all j ∧ t.errors = [] ∧ Q a) (fun _ => False) p s

namespace Delivers

variable {Q : α → Prop} {R : β → Prop} {p q : Parser α} {f : α → Parser β}

theorem pure {a : α} (h : Q a) : Delivers all i i Q (Pure.pure a) := fun _ hs clean => .pure ⟨hs, clean, h⟩

/-- One parser behind another one. -/
theorem bind (hp : Delivers all i j Q p) (hf : ∀ a, Q a → Delivers all j k R (f a)) :
    Delivers all i k R (p >>= f) :=
  fun s hs clean => (hp s hs clean).bind fun a t _ ⟨ht, hclean, ha⟩ => hf a ha t ht hclean

theorem mono {Q' : α → Prop} (hp : Delivers all i j Q p) (hQ : ∀ a, Q a → Q' a) : Delivers all i j Q' p :=
  fun s hs clean => (hp s hs clean).mono (fun _ _ h => ⟨h.1, h.2.1, hQ _ h.2.2⟩) fun _ h => h

theorem map {g : α → β} (hp : Delivers all i j Q p) (hg : ∀ a, Q a → R (g a)) :
    Delivers all i j R (g <$> p) :=
  fun s hs clean => (hp s hs clean).map fun _ _ h => ⟨h.1, h.2.1, hg _ h.2.2⟩

/-- What goes on as another parser wherever it is tried. -/
theorem congr (hp : Delivers all i j Q p) (h : ∀ s, s.Stands all i → q s = p s) : Delivers all i j Q q := by
  intro s hs clean
  unfold Outcome
  rw [h s hs]
  exact hp s hs clean

/-! What is only looked at is told from the next tokens. -/

theorem get {f : ParserState → Parser α} (h : ∀ s, s.Stands all i → Delivers all i j Q (f s)) :
    Delivers all i j Q (MonadState.get >>= f) := fun s hs clean => .get (h s hs s hs clean)

theorem peek {f : Token → Parser α} (ht : all[i]? = some t) (h : Delivers all i j Q (f t)) :
    Delivers all i j Q (Parser.peek >>= f) := fun s hs clean => .peek <| by
  rw [current_of_stands hs ht]
  exact h s hs clean

theorem check (kind : TokenKind) {f : Bool → Parser α}
    (h : Delivers all i j Q (f (decide (nextKind all i = kind)))) :
    Delivers all i j Q (Parser.check kind >>= f) := fun s hs clean => .check <| by
  rw [check_of_stands hs]
  exact h s hs clean

theorem kindAhead (n : Nat) {f : TokenKind → Parser α} (h : Delivers all i j Q (f (nextKind all (i + n)))) :
    Delivers all i j Q (Parser.kindAhead n >>= f) := fun s hs clean => .kindAhead <| by
  rw [kind_ahead_of_stands hs]
  exact h s hs clean

theorem atEnd {f : Bool → Parser α} (h : Delivers all i j Q (f (decide (all.length ≤ i)))) :
    Delivers all i j Q (Parser.atEnd >>= f) := fun s hs clean => .atEnd <| by
  rw [atEnd_of_stands hs]
  exact h s hs clean

/-- A span up to the last token that was read. -/
theorem spanFrom (ordered : Token.InOrder all) {a b : Nat} {start : Span} {f : Span → Parser α}
    (hstart : start.Over all a b) (hle : b ≤ i)
    (h : ∀ span : Span, span.Over all a i → Delivers all i j Q (f span)) :
    Delivers all i j Q (Parser.spanFrom start >>= f) := fun s hs clean =>
  .spanFrom (h _ (hs.spanFrom ordered hstart hle) s hs clean)

/-- A span of which nothing has to be known. -/
theorem someSpan {start : Span} {f : Span → Parser α} (h : ∀ span, Delivers all i j Q (f span)) :
    Delivers all i j Q (Parser.spanFrom start >>= f) := fun s hs clean => .spanFrom (h _ s hs clean)

/-! Known tokens are passed. -/

/-- A parser that passes the next token and goes on. -/
theorem past {f : α → Parser β} {a : α} (hlt : i < all.length)
    (hp : ∀ s, s.Stands all i → p s = .ok a (s.pass 1)) (h : Delivers all (i + 1) j R (f a)) :
    Delivers all i j R (p >>= f) := fun s hs clean =>
  .after (hp s hs) (h _ (hs.pass hlt) clean)

/-- The next token is passed. -/
theorem next (ht : all.drop i = t :: v) : Delivers all i (i + 1) (· = t) Parser.advance :=
  fun s hs clean => by
  have hat := getElem?_of_drop ht
  exact .of_eq (a := s.current) rfl
    ⟨hs.pass (List.getElem?_eq_some_iff.1 hat).1, clean, current_of_stands hs hat⟩

theorem advance {f : Token → Parser α} (ht : all.drop i = t :: v) (h : Delivers all (i + 1) j Q (f t)) :
    Delivers all i j Q (Parser.advance >>= f) := (next ht).bind fun _ heq => heq ▸ h

theorem expect {kind : TokenKind} {f : Token → Parser α} (ht : all.drop i = t :: v) (hkind : t.kind = kind)
    (h : Delivers all (i + 1) j Q (f t)) : Delivers all i j Q (Parser.expect kind >>= f) := by
  have hat := getElem?_of_drop ht
  refine past (List.getElem?_eq_some_iff.1 hat).1 (fun s hs => ?_) h
  rw [expect_eq (decide_eq_true (by rw [current_of_stands hs hat, hkind])), current_of_stands hs hat]

theorem ident {f : Ident → Parser α} (ht : all.drop i = t :: v) (hkind : t.kind = .identifier)
    (h : Delivers all (i + 1) j Q (f ⟨t.name, t.span⟩)) : Delivers all i j Q (Parser.ident >>= f) := by
  have hat := getElem?_of_drop ht
  refine past (List.getElem?_eq_some_iff.1 hat).1 (fun s hs => ?_) h
  rw [ident_eq (by rw [current_of_stands hs hat, hkind]), current_of_stands hs hat]

/-- A token of the class comes next. -/
theorem eat {kind : TokenKind} {f : Bool → Parser α} (ht : all.drop i = t :: v) (hkind : t.kind = kind)
    (h : Delivers all (i + 1) j Q (f true)) : Delivers all i j Q (Parser.eat kind >>= f) := by
  have hat := getElem?_of_drop ht
  refine past (List.getElem?_eq_some_iff.1 hat).1 (fun s hs => ?_) h
  exact eat_eq_true (decide_eq_true (by rw [current_of_stands hs hat, hkind]))

/-- No token of the class comes next. -/
theorem notEaten {kind : TokenKind} {f : Bool → Parser α} (hkind : nextKind all i ≠ kind)
    (h : Delivers all i j Q (f false)) : Delivers all i j Q (Parser.eat kind >>= f) := fun s hs clean =>
  .after (eat_eq (decide_eq_false (by rwa [kind_of_stands hs]))) (h s hs clean)

/-- A declaration gets a number. -/
theorem newDeclId {f : DeclId → Parser α} (h : ∀ id, Delivers all i j Q (f id)) :
    Delivers all i j Q (Parser.newDeclId >>= f) := fun s hs clean =>
  h ⟨s.source, s.nextDecl⟩ { s with nextDecl := s.nextDecl + 1 } ⟨hs.unread, hs.inside, hs.last?,
    hs.tidy⟩ clean

/-- An item that can be read is. -/
theorem recovering {fallback : α} (hp : Delivers all i j Q p) : Delivers all i j Q (recovering fallback p) :=
  fun s hs clean => .tryCatch (hp s hs clean) fun _ _ _ h => h.elim

/-- A phrase is read from its tokens. -/
theorem of_consumes {barred : List TokenKind} (h : Consumes barred Q p u) (hu : all.drop i = u ++ v)
    (hnext : nextKind all (i + u.length) ∉ barred) : Delivers all i (i + u.length) Q p := by
  intro s hs clean
  have hle : i + u.length ≤ all.length := by
    have hlength := congrArg List.length hu
    have hinside := hs.inside
    rw [List.length_drop, List.length_append] at hlength
    omega
  have hpass := hs.pass hle
  obtain ⟨a, hrun, ha⟩ := h s v (hs.unread.trans hu) (by rwa [kind_of_stands hpass])
  exact .of_eq hrun ⟨hpass, clean, ha⟩

/-- What is read again wherever its tokens come is read here. -/
theorem of_repeats {Q' : Nat → α → Prop} (h : Repeats Q p u) (hreads : Reads all i Q' p)
    (hu : all.drop i = u ++ v) :
    Delivers all i (i + u.length) (fun a => Q a ∧ Q' (i + u.length) a) p := by
  intro s hs clean
  obtain ⟨a, t, hrun, ht, hclean, ha⟩ := (h s v (hs.unread.trans hu) clean).exists_ok
  obtain ⟨j, hij, hj, hat⟩ := (hreads s hs).of_ok hrun
  obtain rfl : j = i + u.length := by
    have hall := congrArg List.length hu
    have hrest := congrArg List.length (hj.unread.symm.trans ht)
    have hinside := hj.inside
    rw [List.length_drop, List.length_append] at hall
    rw [List.length_drop] at hrest
    omega
  exact .of_eq hrun ⟨hj, hclean, ha, (hat hclean).2⟩

end Delivers

/-! ### Repetition -/

/-- From the token number `i` an item comes, again and again, to number `j`, and then yields nothing more. -/
def DeliversAll (all : List Token) (i j : Nat) (Q : List α → Prop) (item : Parser (Option α)) : Prop :=
  ∀ s, s.Stands all i → s.errors = [] →
    ∃ list t, Items item s list t ∧ t.Stands all j ∧ t.errors = [] ∧ Q list

namespace DeliversAll

variable {Q : List α → Prop} {P : α → Prop} {item : Parser (Option α)}

theorem nil (h : Delivers all i j (· = none) item) (hQ : Q []) :
    DeliversAll all i j Q item := fun s hs clean => by
  obtain ⟨_, t, hrun, ht, hclean, rfl⟩ := (h s hs clean).exists_ok
  exact ⟨[], t, .done hrun, ht, hclean, hQ⟩

theorem cons (hfirst : Delivers all i j (fun a? => ∃ a, a? = some a ∧ P a) item) (hlt : i < j)
    (hrest : DeliversAll all j k (fun rest => ∀ a, P a → Q (a :: rest)) item) : DeliversAll all i k Q item :=
  fun s hs clean => by
    obtain ⟨_, t, hrun, ht, hclean, a, rfl, ha⟩ := (hfirst s hs clean).exists_ok
    obtain ⟨rest, w, hitems, hw, hclean', hQ⟩ := hrest t ht hclean
    refine ⟨a :: rest, w, .more hrun ?_ hitems, hw, hclean', hQ a ha⟩
    have hinside := ht.inside
    rw [hs.unread, ht.unread, List.length_drop, List.length_drop]
    omega

theorem mono {Q' : List α → Prop} (h : DeliversAll all i j Q item) (hQ : ∀ list, Q list → Q' list) :
    DeliversAll all i j Q' item := fun s hs clean => by
  obtain ⟨list, t, hitems, ht, hclean, hlist⟩ := h s hs clean
  exact ⟨list, t, hitems, ht, hclean, hQ list hlist⟩

theorem many (h : DeliversAll all i j Q item) : Delivers all i j Q (many item) := fun s hs clean => by
  obtain ⟨list, t, hitems, ht, hclean, hQ⟩ := h s hs clean
  exact .of_eq hitems.many_eq ⟨ht, hclean, hQ⟩

end DeliversAll

/-! ### Sources -/

/-- A source whose tokens are all read without an error has the tree that is read. -/
theorem parse_of_delivers {Q : SourceFile → Prop} {source : SourceId} {text : String}
    (errors : (TokenStream.ofText text).errors = [])
    (h : Delivers (TokenStream.ofText text).tokens 0 j Q sourceFile) :
    ∃ file, SourceFile.parse source text = .ok file ∧ Q file := by
  have hquiet : (ParserState.ofText source text).errors = [] := by
    change (TokenStream.ofText text).errors.map ParseError.ofLexError = []
    rw [errors]
    rfl
  obtain ⟨file, t, hrun, -, hclean, hfile⟩ := (h _ (.ofText source text) hquiet).exists_ok
  refine ⟨file, ?_, hfile⟩
  unfold SourceFile.parse SourceFile.ofText EStateM.run
  rw [hrun]
  dsimp only
  rw [hclean]

end Graft.Parser
