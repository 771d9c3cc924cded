/-
Module: Graft.Proofs.Parser.Progress
Purpose: Why loops and recursion of a parser come to an end, from their parts.
Main exports: Parser.Forward, Parser.Passes, Parser.Advancing, Parser.Descending, Parser.fix_eq,
  Parser.many_eq

Rounds of a loop and calls of a production inside itself are only as many as there are tokens.  That
this cuts nothing off is a property of what is repeated: an item that is yielded has passed tokens, and
a production comes to itself only behind some token.  Then the loop and the production satisfy the
equations that they would have without any bound.
-/
import Graft.Proofs.Parser.Names
import Graft.Proofs.Parser.Skipping

namespace Graft

/-- Nothing that a parser does brings tokens back that stand before the unread ones. -/
theorem ParserState.invariant_suffix (tokens : List Token) :
    Parser.NumberingInvariant (fun s => s.unread <:+ tokens) fun _ => True where
  pass count h := (List.drop_suffix count _).trans h
  report _ h := h
  panicking _ _ h := h
  rewind _ hstart := hstart
  nextDecl h := h
  ahead _ _ := trivial

namespace Parser

variable {α β ι : Type}

/-! ### Getting on -/

/-- The parser does not go back behind where it starts. -/
def Forward (p : Parser α) : Prop := ∀ tokens, Keeps (fun s => s.unread <:+ tokens) p

/-- A value is yielded only behind some token. -/
def Passes (p : Parser α) : Prop :=
  ∀ s, Outcome (fun _ t => t.unread.length < s.unread.length) (fun _ => True) p s

/-- Each time the item yields something it has passed some token. -/
def Advancing (item : Parser (Option α)) : Prop :=
  ∀ s, Outcome (fun a? t => a?.isSome → t.unread.length < s.unread.length) (fun _ => True) item s

namespace Forward

variable {p : Parser α} {f : α → Parser β}

theorem suffix (h : Forward p) (s : ParserState) :
    Outcome (fun _ t => t.unread <:+ s.unread) (fun t => t.unread <:+ s.unread) p s :=
  (h s.unread s List.suffix_rfl).mono (fun _ _ h => h.1) fun _ h => h

theorem length_le (h : Forward p) (s : ParserState) :
    Outcome (fun _ t => t.unread.length ≤ s.unread.length) (fun t => t.unread.length ≤ s.unread.length)
      p s :=
  (h.suffix s).mono (fun _ _ h => h.length_le) fun _ h => h.length_le

theorem pure {a : α} : Forward (Pure.pure a : Parser α) := fun _ => .pure trivial

theorem bind (hp : Forward p) (hf : ∀ a, Forward (f a)) : Forward (p >>= f) := fun tokens =>
  .bind (hp tokens) fun a _ => hf a tokens

theorem map {g : α → β} (hp : Forward p) : Forward (g <$> p) := fun tokens =>
  .map (hp tokens) fun _ _ => trivial

theorem ite {c : Prop} [Decidable c] {q : Parser α} (hp : c → Forward p) (hq : ¬c → Forward q) :
    Forward (if c then p else q) := fun tokens => .ite (fun h => hp h tokens) fun h => hq h tokens

theorem throw {e : ParseError} : Forward (MonadExcept.throw e : Parser α) := fun _ => .throw

theorem get : Forward (MonadState.get : Parser ParserState) := fun _ => Yields.get.keeps

theorem peek : Forward peek := fun tokens => (ParserState.invariant_suffix tokens).body.peek.keeps

theorem check (kind : TokenKind) : Forward (check kind) := fun _ => .check kind

theorem kindAhead (n : Nat) : Forward (kindAhead n) := fun _ => .kindAhead n

theorem atEnd : Forward atEnd := fun _ => .atEnd

theorem spanFrom (start : Span) : Forward (spanFrom start) := fun _ => .spanFrom start

theorem advance : Forward advance := fun tokens => (ParserState.invariant_suffix tokens).advance.keeps

theorem eat (kind : TokenKind) : Forward (eat kind) := fun tokens =>
  (ParserState.invariant_suffix tokens).eat kind

theorem eat? (kind : TokenKind) : Forward (eat? kind) := fun tokens =>
  (ParserState.invariant_suffix tokens).eat? kind

theorem expect (kind : TokenKind) : Forward (expect kind) := fun tokens =>
  (ParserState.invariant_suffix tokens).expect kind

theorem ident : Forward ident := fun tokens => (ParserState.invariant_suffix tokens).body.ident.keeps

theorem whenever {test : Parser Bool} (htest : Forward test) (hp : Forward p) :
    Forward (whenever test p) := htest.bind fun _ => .ite (fun _ => hp.map) fun _ => .pure

theorem many {item : Parser (Option α)} (h : Forward item) : Forward (many item) := fun tokens =>
  .keeps_many (h tokens)

theorem skipUntil (terminators : List TokenKind) : Forward (skipUntil terminators) := fun tokens =>
  (ParserState.invariant_suffix tokens).body.skipUntil terminators

theorem skipGroup : Forward skipGroup := fun tokens =>
  .modify fun _ => (ParserState.invariant_suffix tokens).toStable.skipGroup

end Forward

namespace Passes

variable {p : Parser α} {f : α → Parser β}

theorem bind_left (hp : Passes p) (hf : ∀ a, Forward (f a)) : Passes (p >>= f) := fun s =>
  (hp s).bind fun a t _ ht => ((hf a).length_le t).mono (fun _ _ hu => Nat.lt_of_le_of_lt hu ht)
    fun _ _ => trivial

theorem bind_right (hp : Forward p) (hf : ∀ a, Passes (f a)) : Passes (p >>= f) := fun s =>
  ((hp.length_le s).mono (fun _ _ h => h) fun _ _ => trivial).bind fun a t _ ht =>
    (hf a t).mono (fun _ _ hu => Nat.lt_of_lt_of_le hu ht) fun _ h => h

theorem map {g : α → β} (hp : Passes p) : Passes (g <$> p) := fun s => (hp s).map fun _ _ h => h

theorem ite {c : Prop} [Decidable c] {q : Parser α} (hp : c → Passes p) (hq : ¬c → Passes q) :
    Passes (if c then p else q) := fun s => .ite (fun h => hp h s) fun h => hq h s

theorem throw {e : ParseError} : Passes (MonadExcept.throw e : Parser α) := fun _ => .throw trivial

theorem failAt (cause : String → ParseCause) : Passes (failAt cause : Parser α) :=
  .bind_right .peek fun _ => .throw

theorem expect {kind : TokenKind} (h : kind ≠ .endOfFile) : Passes (expect kind) := fun _ =>
  .expect (fun hcheck => ParserState.pass_lt_of_check h hcheck)
    fun _ => trivial

theorem ident : Passes ident := by
  refine fun s => .intro (fun i t hrun => ?_) fun _ _ _ => trivial
  by_cases h : s.current.kind = .identifier
  · rw [ident_eq h] at hrun
    cases hrun
    exact ParserState.pass_lt_of_check (by decide) (decide_eq_true h)
  · change (if s.current.kind ≠ .identifier then _ else _ : Parser Ident) s = _ at hrun
    rw [if_pos h] at hrun
    cases hrun

end Passes

namespace Advancing

variable {item : Parser α}

/-- Items that pass tokens, wherever a test allows one. -/
theorem whenever {test : Parser Bool} (htest : Forward test) (hitem : Passes item) :
    Advancing (whenever test item) := by
  refine fun s => ((htest.length_le s).mono (fun _ _ h => h) fun _ _ => trivial).bind
    fun found t _ ht => .ite (fun _ => ?_) fun _ => .pure (by simp)
  exact (hitem t).map fun _ _ hlt _ => Nat.lt_of_lt_of_le hlt ht

/-- Items behind a token that announces them. -/
theorem whenever_eat {kind : TokenKind} (h : kind ≠ .endOfFile) (hitem : Forward item) :
    Advancing (Parser.whenever (Parser.eat kind) item) := by
  refine fun s => .eat (fun hcheck => .ite (fun _ => ?_) (absurd rfl)) fun _ => .ite nofun fun _ =>
    .pure (by simp)
  have hlt := ParserState.pass_lt_of_check h hcheck
  exact ((hitem.length_le _).mono (fun _ _ h => h) fun _ _ => trivial).map
    fun _ _ hle _ => Nat.lt_of_le_of_lt hle hlt

theorem eat? {kind : TokenKind} (h : kind ≠ .endOfFile) : Advancing (Parser.eat? kind) := fun _ =>
  .eat? (fun hcheck _ => ParserState.pass_lt_of_check h hcheck)
    (by simp)

end Advancing

/-! ### Recursion -/

/-- From the state `s` on the parsers do the same, and go forward. -/
def Same (p q : Parser α) (s : ParserState) : Prop :=
  p s = q s ∧ Outcome (fun _ t => t.unread.length ≤ s.unread.length)
    (fun t => t.unread.length ≤ s.unread.length) p s

/-- With fewer than `n` tokens to read the parsers do the same, and go forward. -/
def Agree (n : Nat) (p q : Parser α) : Prop := ∀ s, s.unread.length < n → Same p q s

/-- A production comes to itself only behind some token: what it does with at most `n` tokens to read
depends only on what the inner one does with fewer than `n`. -/
def Descending (step : (ι → Parser α) → ι → Parser α) : Prop :=
  ∀ n inner inner', (∀ i, Agree n (inner i) (inner' i)) → ∀ i, Agree (n + 1) (step inner i) (step inner' i)

namespace Same

variable {p q : Parser α} {f g : α → Parser β} {s : ParserState}

theorem refl (h : Forward p) (s : ParserState) : Same p p s := ⟨rfl, h.length_le s⟩

/-- Parsers that do the same, and behind them parsers that do the same. -/
theorem bind (hp : Same p q s)
    (hf : ∀ a t, p s = .ok a t → t.unread.length ≤ s.unread.length → Same (f a) (g a) t) :
    Same (p >>= f) (q >>= g) s := by
  obtain ⟨heq, hrun⟩ := hp
  refine ⟨?_, hrun.bind fun a t hok ht => ?_⟩
  · change EStateM.bind p f s = EStateM.bind q g s
    unfold EStateM.bind
    rw [← heq]
    cases hok : p s with
    | ok a t => exact (hf a t hok (hrun.of_ok hok)).1
    | error e t => rfl
  · exact (hf a t hok ht).2.mono (fun _ _ h => h.trans ht) fun _ h => h.trans ht

theorem ite {c : Prop} [Decidable c] {p' q' : Parser α} (hp : c → Same p q s)
    (hq : ¬c → Same p' q' s) : Same (if c then p else p') (if c then q else q') s := by
  split
  · exact hp ‹_›
  · exact hq ‹_›

theorem tryCatch {handler : ParseError → Parser α} (hp : Same p q s)
    (hhandler : ∀ e, Forward (handler e)) : Same (tryCatch p handler) (tryCatch q handler) s := by
  obtain ⟨heq, hrun⟩ := hp
  refine ⟨?_, hrun.tryCatch fun e t _ ht => ?_⟩
  · change EStateM.tryCatch p handler s = EStateM.tryCatch q handler s
    unfold EStateM.tryCatch
    rw [heq]
  · exact ((hhandler e).length_le t).mono (fun _ _ h => h.trans ht) fun _ h => h.trans ht

end Same

namespace Agree

variable {n : Nat} {p q : Parser α} {f g : α → Parser β}

theorem refl (h : Forward p) : Agree n p p := fun s _ => .refl h s

theorem bind (hp : Agree n p q) (hf : ∀ a, Agree n (f a) (g a)) : Agree n (p >>= f) (q >>= g) :=
  fun s hs => (hp s hs).bind fun a t _ ht => hf a t (Nat.lt_of_le_of_lt ht hs)

/-- Behind a part that passes tokens fewer are left. -/
theorem bind_passes (hp : Forward p) (hpasses : Passes p) (hf : ∀ a, Agree n (f a) (g a)) :
    Agree (n + 1) (p >>= f) (p >>= g) :=
  fun s hs => (Same.refl hp s).bind fun a t hok _ =>
    hf a t (Nat.lt_of_lt_of_le ((hpasses s).of_ok hok) (Nat.le_of_lt_succ hs))

/-- Behind a token that is eaten fewer are left. -/
theorem eat {kind : TokenKind} (h : kind ≠ .endOfFile) {f g : Bool → Parser β}
    (found : Agree n (f true) (g true)) (missing : Agree (n + 1) (f false) (g false)) :
    Agree (n + 1) (Parser.eat kind >>= f) (Parser.eat kind >>= g) := by
  refine fun s hs => (Same.refl (.eat kind) s).bind fun eaten t hok ht => ?_
  have hlt : eaten = true → t.unread.length < s.unread.length := by
    refine (Outcome.eat (E := fun _ => True) (f := Pure.pure) ?_ ?_ : Outcome
      (fun eaten t => eaten = true → t.unread.length < s.unread.length) _ _ s).of_ok
        ((bind_eq hok Pure.pure).trans rfl)
    · exact fun hcheck => .pure fun _ => ParserState.pass_lt_of_check h hcheck
    · exact fun _ => .pure nofun
  cases eaten with
  | true => exact found t (Nat.lt_of_lt_of_le (hlt rfl) (Nat.le_of_lt_succ hs))
  | false => exact missing t (Nat.lt_of_le_of_lt ht hs)

theorem ite {c : Prop} [Decidable c] {p' q' : Parser α} (hp : c → Agree n p q)
    (hq : ¬c → Agree n p' q') : Agree n (if c then p else p') (if c then q else q') := fun s hs =>
  .ite (fun h => hp h s hs) fun h => hq h s hs

theorem map {g : α → β} (h : Agree n p q) : Agree n (g <$> p) (g <$> q) := by
  rw [map_eq_pure_bind, map_eq_pure_bind]
  exact h.bind fun _ => .refl .pure

theorem whenever {test : Parser Bool} (htest : Forward test) (h : Agree n p q) :
    Agree n (whenever test p) (whenever test q) :=
  (refl htest).bind fun _ => .ite (fun _ => h.map) fun _ => .refl .pure

/-- Productions agree if the steps that they unfold do. -/
theorem fix {step step' : (ι → Parser α) → ι → Parser α}
    (hstep : ∀ inner inner', (∀ i, Agree n (inner i) (inner' i)) →
      ∀ i, Agree n (step inner i) (step' inner' i)) (i : ι) : Agree n (fix step i) (fix step' i) := by
  have hunfold : ∀ rounds i, Agree n (unfold step rounds i) (unfold step' rounds i) := by
    intro rounds
    induction rounds with
    | zero => exact fun i => .refl (.bind .peek fun _ => fun _ => .throw)
    | succ rounds ih => exact hstep _ _ ih
  exact fun s hs => hunfold _ i s hs

theorem many {item item' : Parser (Option α)} (h : Agree n item item') :
    Agree n (many item) (many item') := by
  refine .fix (fun rest rest' hrest _ => h.bind fun a? => ?_) ()
  cases a? with
  | none => exact .refl .pure
  | some a => exact (hrest ()).bind fun _ => .refl .pure

theorem separated (h : Agree n p q) : Agree n (separated p) (separated q) := by
  refine .fix (fun rest rest' hrest _ => h.bind fun _ => ?_) ()
  exact (refl (.eat .comma)).bind fun _ =>
    .ite (fun _ => (hrest ()).bind fun _ => .refl .pure) fun _ => .refl .pure

end Agree

/-- A production that comes to itself only behind some token agrees with its unfoldings, of which as
many are enough as there are tokens. -/
theorem agree_fix {step : (ι → Parser α) → ι → Parser α} (h : Descending step) (n : Nat) :
    ∀ rounds, n ≤ rounds → ∀ i, Agree n (unfold step rounds i) (fix step i) := by
  have hunfold : ∀ n rounds rounds', n ≤ rounds → n ≤ rounds' →
      ∀ i, Agree n (unfold step rounds i) (unfold step rounds' i) := by
    intro n
    induction n with
    | zero => exact fun _ _ _ _ i s hs => absurd hs (Nat.not_lt_zero _)
    | succ n ih =>
        intro rounds rounds' hle hle' i
        obtain ⟨k, rfl⟩ := Nat.exists_eq_add_one_of_ne_zero (by omega : rounds ≠ 0)
        obtain ⟨k', rfl⟩ := Nat.exists_eq_add_one_of_ne_zero (by omega : rounds' ≠ 0)
        exact h n _ _ (ih k k' (Nat.le_of_succ_le_succ hle) (Nat.le_of_succ_le_succ hle')) i
  intro rounds hle i s hs
  exact hunfold (s.unread.length + 1) rounds _ (by omega) (Nat.le_refl _) i s (Nat.lt_succ_self _)

/-- A production that comes to itself only behind some token satisfies its own equation. -/
theorem fix_eq {step : (ι → Parser α) → ι → Parser α} (h : Descending step) (i : ι) :
    fix step i = step (fix step) i := by
  funext s
  exact (h _ _ _ (agree_fix h s.unread.length s.unread.length (Nat.le_refl _)) i s
    (Nat.lt_succ_self _)).1

/-- A loop over items that pass tokens. -/
theorem many_eq {item : Parser (Option α)} (hitem : Forward item) (h : Advancing item) :
    many item = (do
      match ← item with
      | none => return []
      | some a => return a :: (← many item)) := by
  refine fix_eq (fun n rest rest' hrest _ s hs => (Same.refl hitem s).bind fun a? t hok ht => ?_) ()
  cases a? with
  | none => exact .refl .pure t
  | some a =>
      have hlt := (h s).of_ok hok rfl
      exact (hrest () t (Nat.lt_of_lt_of_le hlt (Nat.le_of_lt_succ hs))).bind fun _ u _ _ =>
        .refl .pure u

/-- A list with commas between its items goes on behind a comma. -/
theorem separated_eq {item : Parser α} (hitem : Forward item) :
    separated item = (do
      let a ← item
      if ← eat .comma then return a :: (← separated item) else return [a]) := by
  refine fix_eq (fun n rest rest' hrest _ => (Agree.refl hitem).bind fun a => ?_) ()
  refine .eat (by decide) ?_ (.ite nofun fun _ => .refl .pure)
  exact .ite (fun _ => (hrest ()).bind fun _ => .refl .pure) fun _ => .refl .pure

end Parser

end Graft
