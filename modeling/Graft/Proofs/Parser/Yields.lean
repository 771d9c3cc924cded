/-
Module: Graft.Proofs.Parser.Yields
Purpose: What every parser keeps and what it yields, from its parts.
Main exports: Parser.Outcome, Parser.Yields, Parser.Invariant, Parser.PassInvariant, Parser.BodyInvariant,
  Parser.Items

A parser changes its state in few ways: it passes tokens, reports errors and goes back to an earlier
place.  A property of states that survives each of these is kept by every parser that numbers no
declarations, whether it yields a value or an error.  Some properties survive less: the parsers that
read what stands between the braces of a type pass no brace by itself, only whole groups.
-/
import Graft.Parser.File
import Graft.Proofs.Parser.Nesting

namespace Graft

/-- Recording an error leaves a parser with errors, even if it does not report this one. -/
theorem ParserState.errors_record_of_tidy (s : ParserState) (tidy : s.panicking = true → s.errors ≠ [])
    (e : ParseError) : (s.record e).errors ≠ [] := by
  unfold ParserState.record
  split
  · exact tidy ‹_›
  · simp [ParserState.report]

namespace Parser

variable {α β ι : Type}

theorem kind_of_check {s : ParserState} {kind : TokenKind} (h : s.check kind = true) :
    s.current.kind = kind := of_decide_eq_true h

/-- What comes after a parser starts with its value, in the state that it ends in. -/
theorem bind_eq {p : Parser α} {s t : ParserState} {a : α} (h : p s = .ok a t) (f : α → Parser β) :
    (p >>= f) s = f a t := by
  change EStateM.bind p f s = f a t
  unfold EStateM.bind
  rw [h]

/-! ### Outcomes -/

/-- From the state `s` the parser yields a value and comes to a state that satisfy `Q` together, or it
fails in a state with `E`. -/
def Outcome (Q : α → ParserState → Prop) (E : ParserState → Prop) (p : Parser α) (s : ParserState) : Prop :=
  match p s with
  | .ok a t => Q a t
  | .error _ t => E t

namespace Outcome

variable {Q Q' : α → ParserState → Prop} {R : β → ParserState → Prop} {E F : ParserState → Prop}
  {p : Parser α} {f : α → Parser β} {s t : ParserState}

theorem of_ok (h : Outcome Q E p s) {a : α} (hp : p s = .ok a t) : Q a t := by
  unfold Outcome at h
  rwa [hp] at h

theorem of_error (h : Outcome Q E p s) {e : ParseError} (hp : p s = .error e t) : E t := by
  unfold Outcome at h
  rwa [hp] at h

/-- An outcome is a value or an error. -/
theorem intro (hok : ∀ a t, p s = .ok a t → Q a t) (herror : ∀ e t, p s = .error e t → E t) :
    Outcome Q E p s := by
  unfold Outcome
  cases hp : p s with
  | ok a t => exact hok a t hp
  | error e t => exact herror e t hp

theorem of_eq {a : α} (hp : p s = .ok a t) (h : Q a t) : Outcome Q E p s := by
  unfold Outcome
  rw [hp]
  exact h

/-- A parser that does not fail yields a value. -/
theorem exists_ok (h : Outcome Q (fun _ => False) p s) : ∃ a t, p s = .ok a t ∧ Q a t := by
  cases hp : p s with
  | ok a t => exact ⟨a, t, rfl, h.of_ok hp⟩
  | error e t => exact (h.of_error hp).elim

theorem mono (h : Outcome Q E p s) (hQ : ∀ a t, Q a t → Q' a t) (hE : ∀ t, E t → F t) :
    Outcome Q' F p s :=
  .intro (fun a t hp => hQ a t (h.of_ok hp)) fun _ t hp => hE t (h.of_error hp)

theorem pure {a : α} (h : Q a s) : Outcome Q E (Pure.pure a) s := h

theorem throw {e : ParseError} (h : E s) : Outcome Q E (MonadExcept.throw e) s := h

/-- One parser after another, which is known to start where the first one ends. -/
theorem bind (hp : Outcome Q E p s) (hf : ∀ a t, p s = .ok a t → Q a t → Outcome R E (f a) t) :
    Outcome R E (p >>= f) s := by
  change match EStateM.bind p f s with
    | .ok b u => R b u
    | .error _ u => E u
  unfold EStateM.bind
  cases hrun : p s with
  | ok a t => exact hf a t hrun (hp.of_ok hrun)
  | error e t => exact hp.of_error hrun

/-- One parser after another, whose value is known. -/
theorem after {a : α} (hp : p s = .ok a t) (hf : Outcome R E (f a) t) : Outcome R E (p >>= f) s := by
  unfold Outcome
  rw [bind_eq hp]
  exact hf

theorem map {g : α → β} (hp : Outcome Q E p s) (hg : ∀ a t, Q a t → R (g a) t) :
    Outcome R E (g <$> p) s := by
  change match EStateM.map g p s with
    | .ok b u => R b u
    | .error _ u => E u
  unfold EStateM.map
  cases hrun : p s with
  | ok a t => exact hg a t (hp.of_ok hrun)
  | error e t => exact hp.of_error hrun

theorem ite {c : Prop} [Decidable c] {q : Parser α} (hp : c → Outcome Q E p s)
    (hq : ¬c → Outcome Q E q s) : Outcome Q E (if c then p else q) s := by
  by_cases h : c
  · rw [if_pos h]
    exact hp h
  · rw [if_neg h]
    exact hq h

theorem tryCatch {handler : ParseError → Parser α} (hp : Outcome Q F p s)
    (hhandler : ∀ e t, p s = .error e t → F t → Outcome Q E (handler e) t) :
    Outcome Q E (tryCatch p handler) s := by
  change match EStateM.tryCatch p handler s with
    | .ok a u => Q a u
    | .error _ u => E u
  unfold EStateM.tryCatch
  cases hrun : p s with
  | ok a t => exact hp.of_ok hrun
  | error e t => exact hhandler e t hrun (hp.of_error hrun)

/-- A production that occurs inside itself has the outcome that it has however often the inner one is
unfolded. -/
theorem fix {step : (ι → Parser α) → ι → Parser α} {i : ι}
    (h : ∀ rounds, Outcome Q E (step (unfold step rounds) i) s) : Outcome Q E (fix step i) s := h _

/-- A production that occurs inside itself has an outcome that it has whenever the inner one has it, if
it may fail anywhere. -/
theorem fix_of_step {step : (ι → Parser α) → ι → Parser α} {L : ι → ParserState → Prop}
    {Q : ι → α → ParserState → Prop} (hE : ∀ i s, L i s → E s)
    (hstep : ∀ inner, (∀ i s, L i s → Outcome (Q i) E (inner i) s) →
      ∀ i s, L i s → Outcome (Q i) E (step inner i) s) {i : ι} (hs : L i s) :
    Outcome (Q i) E (Parser.fix step i) s := by
  have hunfold : ∀ rounds i s, L i s → Outcome (Q i) E (unfold step rounds i) s := by
    intro rounds
    induction rounds with
    | zero => exact fun i s hs => hE i s hs
    | succ rounds ih => exact hstep _ ih
  exact .fix fun rounds => hstep _ (hunfold rounds) i s hs

/-! What is only looked at leaves the state as it is. -/

theorem get {f : ParserState → Parser α} (h : Outcome Q E (f s) s) :
    Outcome Q E (MonadState.get >>= f) s := h

theorem peek {f : Token → Parser α} (h : Outcome Q E (f s.current) s) :
    Outcome Q E (peek >>= f) s := h

theorem check {kind : TokenKind} {f : Bool → Parser α} (h : Outcome Q E (f (s.check kind)) s) :
    Outcome Q E (check kind >>= f) s := h

theorem kindAhead {n : Nat} {f : TokenKind → Parser α} (h : Outcome Q E (f (s.ahead n).kind) s) :
    Outcome Q E (kindAhead n >>= f) s := h

theorem atEnd {f : Bool → Parser α} (h : Outcome Q E (f s.atEnd) s) : Outcome Q E (atEnd >>= f) s := h

theorem spanFrom {start : Span} {f : Span → Parser α} (h : Outcome Q E (f (s.spanFrom start)) s) :
    Outcome Q E (spanFrom start >>= f) s := h

theorem modify {g : ParserState → ParserState} {f : PUnit → Parser α} (h : Outcome Q E (f ⟨⟩) (g s)) :
    Outcome Q E (modify g >>= f) s := h

theorem eat? {kind : TokenKind} {Q : Option Token → ParserState → Prop}
    (found : s.check kind = true → Q (some s.current) (s.pass 1))
    (missing : s.check kind = false → Q none s) : Outcome Q E (eat? kind) s :=
  .check <| .ite (fun h => found h) fun h => missing (Bool.eq_false_iff.2 h)

/-- A token is eaten if it is of the class. -/
theorem eat {kind : TokenKind} {f : Bool → Parser α}
    (found : s.check kind = true → Outcome Q E (f true) (s.pass 1))
    (missing : s.check kind = false → Outcome Q E (f false) s) : Outcome Q E (eat kind >>= f) s :=
  .bind (Q := fun b t => Outcome Q E (f b) t)
    (.bind (Q := fun token? t => Outcome Q E (f token?.isSome) t) (.eat? found missing)
      fun _ _ _ h => .pure h) fun _ _ _ h => h

/-- A token that is not of the class expected is an error. -/
theorem expect {kind : TokenKind} {Q : Token → ParserState → Prop}
    (found : s.check kind = true → Q s.current (s.pass 1)) (missing : s.check kind = false → E s) :
    Outcome Q E (expect kind) s := by
  refine .bind (Q := fun token? t => token?.elim (E t) (Q · t)) (.eat? found missing)
    fun token? t _ ht => ?_
  cases token? with
  | none => exact .get <| .throw ht
  | some token => exact .pure ht

end Outcome

/-! ### Properties that are kept -/

/-- A property of states that nothing a parser does to its state ends, but for numbering a
declaration.  A parser panics only with an error reported. -/
structure Stable (I : ParserState → Prop) : Prop where
  pass : ∀ {s : ParserState} (count : Nat), I s → I (s.pass count)
  report : ∀ {s : ParserState} (e : ParseError), I s → I (s.report e)
  panicking : ∀ {s : ParserState} (panicking : Bool), (panicking = true → s.errors ≠ []) → I s →
    I { s with panicking }
  rewind : ∀ {s start : ParserState}, I s → I start → I (s.rewind start)

namespace Stable

variable {I : ParserState → Prop} (stable : Stable I) {s : ParserState}
include stable

theorem record (e : ParseError) (h : I s) : I (s.record e) := by
  unfold ParserState.record
  split
  · exact h
  · exact stable.panicking true (by simp [ParserState.report]) (stable.report e h)

theorem passDistance (d : Skip.Distance) (h : I s) : I (s.passDistance d) := by
  unfold ParserState.passDistance
  dsimp only
  split
  · exact stable.record _ (stable.pass _ h)
  · exact stable.pass _ h

theorem skipGroup (h : I s) : I s.skipGroup := by
  unfold ParserState.skipGroup
  split
  · exact stable.pass _ h
  · exact stable.passDistance _ h

theorem skipUntil (terminators : List TokenKind) (h : I s) : I (s.skipUntil terminators) :=
  stable.passDistance _ h

theorem synchronize (h : I s) : I s.synchronize :=
  stable.passDistance _ (stable.panicking false nofun h)

end Stable

/-- From a state with `I` the parser ends in one with `I`, and a value that it yields satisfies
`Q`. -/
def Yields (I : ParserState → Prop) (Q : α → Prop) (p : Parser α) : Prop :=
  ∀ s, I s → Outcome (fun a t => I t ∧ Q a) I p s

/-- The parser keeps `I`. -/
abbrev Keeps (I : ParserState → Prop) (p : Parser α) : Prop := Yields I (fun _ => True) p

/-- A property of states that reading keeps, and the tokens that come next in such states. -/
structure Invariant (I : ParserState → Prop) (good : Token → Prop) : Prop extends Stable I where
  ahead : ∀ {s : ParserState} (n : Nat), I s → good (s.ahead n)

/-- A property of states that numbering a declaration does not end either. -/
structure NumberingInvariant (I : ParserState → Prop) (good : Token → Prop) : Prop
    extends Invariant I good where
  nextDecl : ∀ {s : ParserState}, I s → I { s with nextDecl := s.nextDecl + 1 }

/-- A property of states that passing a token keeps, unless it is a brace, and the tokens that
come next in such states. -/
structure PassInvariant (I : ParserState → Prop) (good : Token → Prop) : Prop where
  pass : ∀ {s : ParserState}, I s → s.current.kind.isBrace = false → I (s.pass 1)
  ahead : ∀ {s : ParserState} (n : Nat), I s → good (s.ahead n)

/-- A property of states that reading between the braces of a type keeps, where no brace is passed by
itself, and the tokens that come next in such states. -/
structure BodyInvariant (I : ParserState → Prop) (good : Token → Prop) :
    Prop extends PassInvariant I good where
  report : ∀ {s : ParserState} (e : ParseError), I s → I (s.report e)
  rewind : ∀ {s start : ParserState}, I s → I start → I (s.rewind start)
  passGroup : ∀ {s : ParserState}, I s → s.current.kind.isOpener = true → I s.skipGroup
  passUntil : ∀ {s : ParserState} (terminators : List TokenKind), I s → I (s.skipUntil terminators)

/-- What all reading keeps is kept between braces. -/
theorem Invariant.body {I : ParserState → Prop} {good : Token → Prop} (inv : Invariant I good) :
    BodyInvariant I good where
  pass h _ := inv.pass 1 h
  report := inv.report
  rewind := inv.rewind
  passGroup h _ := inv.toStable.skipGroup h
  passUntil := inv.toStable.skipUntil
  ahead := inv.ahead

namespace Yields

variable {I : ParserState → Prop} {Q : α → Prop} {R : β → Prop} {p : Parser α} {f : α → Parser β}

/-! ### Steps -/

theorem pure {a : α} (h : Q a) : Yields I Q (Pure.pure a) := fun _ hs => .pure ⟨hs, h⟩

theorem throw {e : ParseError} : Yields I Q (MonadExcept.throw e) := fun _ hs => .throw hs

theorem bind (hp : Yields I Q p) (hf : ∀ a, Q a → Yields I R (f a)) : Yields I R (p >>= f) :=
  fun s hs => (hp s hs).bind fun a t _ h => hf a h.2 t h.1

theorem map {g : α → β} (hp : Yields I Q p) (hg : ∀ a, Q a → R (g a)) : Yields I R (g <$> p) :=
  fun s hs => (hp s hs).map fun a _ h => ⟨h.1, hg a h.2⟩

theorem mono {Q' : α → Prop} (hp : Yields I Q p) (hQ : ∀ a, Q a → Q' a) : Yields I Q' p :=
  fun s hs => (hp s hs).mono (fun a _ h => ⟨h.1, hQ a h.2⟩) fun _ h => h

theorem keeps (hp : Yields I Q p) : Keeps I p := hp.mono fun _ _ => trivial

theorem get : Yields I I (MonadState.get : Parser ParserState) := fun _ hs => ⟨hs, hs⟩

theorem set {t : ParserState} (ht : I t) : Keeps I (MonadState.set t : Parser PUnit) := fun _ _ =>
  ⟨ht, trivial⟩

theorem modify {g : ParserState → ParserState} (hg : ∀ s, I s → I (g s)) :
    Keeps I (modify g : Parser PUnit) := fun s hs => ⟨hg s hs, trivial⟩

theorem ite {c : Prop} [Decidable c] {q : Parser α} (hp : c → Yields I Q p)
    (hq : ¬c → Yields I Q q) : Yields I Q (if c then p else q) :=
  fun s hs => .ite (fun h => hp h s hs) fun h => hq h s hs

theorem tryCatch {handler : ParseError → Parser α} (hp : Yields I Q p)
    (hhandler : ∀ e, Yields I Q (handler e)) : Yields I Q (tryCatch p handler) :=
  fun s hs => (hp s hs).tryCatch fun e t _ ht => hhandler e t ht

/-! ### Recursion -/

theorem fix {Q : ι → α → Prop} {step : (ι → Parser α) → ι → Parser α}
    (hstep : ∀ inner, (∀ i, Yields I (Q i) (inner i)) → ∀ i, Yields I (Q i) (step inner i)) (i : ι) :
    Yields I (Q i) (fix step i) := fun _ hs =>
  .fix_of_step (L := fun _ => I) (fun _ _ h => h) hstep hs

theorem many {item : Parser (Option α)} (hitem : Yields I (fun a? => ∀ a ∈ a?, Q a) item) :
    Yields I (fun list => ∀ a ∈ list, Q a) (many item) := by
  refine fix (Q := fun _ list => ∀ a ∈ list, Q a) (fun rest hrest _ => bind hitem fun a? ha => ?_) ()
  cases a? with
  | none => exact pure (by simp)
  | some a =>
      refine bind (hrest ()) fun list hlist => pure ?_
      intro b hb
      rcases List.mem_cons.1 hb with rfl | hb
      · exact ha b rfl
      · exact hlist b hb

theorem keeps_many {item : Parser (Option α)} (hitem : Keeps I item) : Keeps I (Parser.many item) :=
  (many (hitem.mono fun _ _ _ _ => trivial)).keeps

end Yields

/-! ### Repetition -/

/-- The values that an item yields one after another, each time passing tokens, until it yields
nothing. -/
inductive Items (item : Parser (Option α)) : ParserState → List α → ParserState → Prop where
  | done {s t : ParserState} (last : item s = .ok none t) : Items item s [] t
  | more {s t u : ParserState} {a : α} {list : List α} (first : item s = .ok (some a) t)
      (shorter : t.unread.length < s.unread.length) (later : Items item t list u) :
      Items item s (a :: list) u

/-- A repetition yields what its items yield. -/
theorem Items.many_eq {item : Parser (Option α)} {s t : ParserState} {list : List α}
    (h : Items item s list t) : many item s = .ok list t := by
  -- more rounds than there are tokens are enough
  unfold many fix
  generalize hrounds : s.unread.length + 1 = rounds
  replace hrounds : s.unread.length < rounds := by omega
  induction h generalizing rounds with
  | done last =>
      obtain ⟨k, rfl⟩ := Nat.exists_eq_add_one_of_ne_zero (Nat.ne_zero_of_lt hrounds)
      exact bind_eq last _
  | more first shorter later ih =>
      obtain ⟨k, rfl⟩ := Nat.exists_eq_add_one_of_ne_zero (Nat.ne_zero_of_lt hrounds)
      exact (bind_eq first _).trans (bind_eq (ih k (by omega)) _)

/-- What a repetition ends with, if each of its items keeps `L` or ends it with `D`. -/
theorem Outcome.many {item : Parser (Option α)} {L D E : ParserState → Prop}
    (hitem : ∀ s, L s → Outcome (fun a? t => (a? = none → D t) ∧ (a?.isSome → L t)) E item s)
    (hE : ∀ s, L s → E s) {s : ParserState} (hs : L s) : Outcome (fun _ t => D t) E (many item) s := by
  refine .fix_of_step (L := fun _ => L) (Q := fun _ _ t => D t) (fun _ => hE)
    (fun rest hrest _ s hs => ?_) hs
  refine (hitem s hs).bind fun a? t _ ht => ?_
  cases a? with
  | none => exact .pure (ht.1 rfl)
  | some a => exact (hrest () t (ht.2 rfl)).bind fun _ _ _ hu => .pure hu

/-- If an item, wherever `L` holds, yields nothing and ends in a state with `D`, or yields something and
passes tokens to where `L` holds again, it can be repeated until it yields nothing. -/
theorem Items.of_progress {item : Parser (Option α)} {L D : ParserState → Prop}
    (h : ∀ s, L s → Outcome (fun a? t => (a? = none → D t) ∧
      (a?.isSome → L t ∧ t.unread.length < s.unread.length)) (fun _ => False) item s)
    (s : ParserState) (hs : L s) : ∃ list t, Items item s list t ∧ D t := by
  obtain ⟨a?, t, hrun, hnone, hsome⟩ := (h s hs).exists_ok
  cases a? with
  | none => exact ⟨[], t, .done hrun, hnone rfl⟩
  | some a =>
      obtain ⟨ht, hless⟩ := hsome rfl
      obtain ⟨list, u, hitems, hu⟩ := of_progress h t ht
      exact ⟨a :: list, u, .more hrun hless hitems, hu⟩
termination_by s.unread.length

/-- A repetition whose items pass tokens does not fail. -/
theorem Outcome.many_of_progress {item : Parser (Option α)} {L D : ParserState → Prop}
    (h : ∀ s, L s → Outcome (fun a? t => (a? = none → D t) ∧
      (a?.isSome → L t ∧ t.unread.length < s.unread.length)) (fun _ => False) item s)
    {s : ParserState} (hs : L s) : Outcome (fun _ t => D t) (fun _ => False) (Parser.many item) s := by
  obtain ⟨list, t, hitems, ht⟩ := Items.of_progress h s hs
  exact .of_eq hitems.many_eq ht

/-! ### Single tokens -/

namespace Yields

variable {I : ParserState → Prop} {Q : α → Prop}

theorem kindAhead (n : Nat) : Keeps I (kindAhead n) := .bind .get fun _ _ => .pure trivial

theorem check (kind : TokenKind) : Keeps I (check kind) := .bind .get fun _ _ => .pure trivial

theorem atEnd : Keeps I atEnd := .bind .get fun _ _ => .pure trivial

theorem spanFrom (start : Span) : Keeps I (spanFrom start) := .bind .get fun _ _ => .pure trivial

theorem failExpecting (what : String) : Yields I Q (failExpecting what) :=
  .bind .get fun _ _ => .throw

theorem whenever {test : Parser Bool} {item : Parser α} (htest : Keeps I test)
    (hitem : Yields I Q item) : Yields I (fun a? => ∀ a ∈ a?, Q a) (whenever test item) :=
  .bind htest fun _ _ => .ite (fun _ => .map hitem fun a ha b hb => by cases hb; exact ha)
    fun _ => .pure (by simp)

/-- An item that is read only where a test of the state succeeds. -/
theorem whenever_of {test : ParserState → Bool} {item : Parser α}
    (hitem : ∀ s, I s → test s = true → Outcome (fun a t => I t ∧ Q a) I item s) :
    Yields I (fun a? => ∀ a ∈ a?, Q a) (Parser.whenever (return test (← MonadState.get)) item) :=
  fun s hs => .get <| .ite (fun h => .map (hitem s hs h) fun a t ha =>
    ⟨ha.1, fun b hb => by cases hb; exact ha.2⟩) fun _ => .pure ⟨hs, by simp⟩

end Yields

namespace PassInvariant

variable {I : ParserState → Prop} {good : Token → Prop} {Q : α → Prop} {s : ParserState}
  (inv : PassInvariant I good)
include inv

theorem peek : Yields I good peek := .bind .get fun _ hs => .pure (inv.ahead 0 hs)

theorem failAt (cause : String → ParseCause) : Yields I Q (failAt cause) :=
  .bind inv.peek fun _ _ => .throw

/-- A token that is no brace is passed. -/
theorem advance (hs : I s) (notBrace : s.current.kind.isBrace = false) :
    Outcome (fun t u => I u ∧ good t) I advance s :=
  .peek <| .modify <| .pure ⟨inv.pass hs notBrace, inv.ahead 0 hs⟩

theorem eat? {kind : TokenKind} (notBrace : kind.isBrace = false) : Keeps I (eat? kind) := fun _ hs =>
  .eat? (fun h => ⟨inv.pass hs (by rw [kind_of_check h]; exact notBrace), trivial⟩) fun _ => ⟨hs, trivial⟩

theorem eat {kind : TokenKind} (notBrace : kind.isBrace = false) : Keeps I (eat kind) :=
  .bind (inv.eat? notBrace) fun _ _ => .pure trivial

theorem expect {kind : TokenKind} (notBrace : kind.isBrace = false) : Keeps I (expect kind) := fun _ hs =>
  .expect (fun h => ⟨inv.pass hs (by rw [kind_of_check h]; exact notBrace), trivial⟩) fun _ => hs

theorem separated_ne_nil {item : Parser α} (hitem : Yields I Q item) :
    Yields I (fun list => list ≠ [] ∧ ∀ a ∈ list, Q a) (separated item) := by
  refine .fix (Q := fun _ list => list ≠ [] ∧ ∀ a ∈ list, Q a) (fun rest hrest _ => ?_) ()
  refine .bind hitem fun a ha => .bind (inv.eat rfl) fun _ _ => .ite (fun _ => ?_) fun _ => ?_
  · refine .bind (hrest ()) fun list hlist => .pure ⟨List.cons_ne_nil _ _, ?_⟩
    intro b hb
    rcases List.mem_cons.1 hb with rfl | hb
    · exact ha
    · exact hlist.2 b hb
  · exact .pure ⟨List.cons_ne_nil _ _, by simpa using ha⟩

theorem separated {item : Parser α} (hitem : Yields I Q item) :
    Yields I (fun list => ∀ a ∈ list, Q a) (separated item) :=
  (inv.separated_ne_nil hitem).mono fun _ h => h.2

end PassInvariant

namespace BodyInvariant

variable {I : ParserState → Prop} {good : Token → Prop} {s : ParserState} (inv : BodyInvariant I good)
include inv

/-- The group that an opening bracket starts is passed. -/
theorem skipGroup (hs : I s) (opener : s.current.kind.isOpener = true) :
    Outcome (fun _ t => I t) I skipGroup s := inv.passGroup hs opener

theorem skipUntil (terminators : List TokenKind) : Keeps I (skipUntil terminators) :=
  .modify fun _ => inv.passUntil terminators

end BodyInvariant

namespace Invariant

variable {I : ParserState → Prop} {good : Token → Prop} (inv : Invariant I good)
include inv

theorem advance : Yields I good advance :=
  .bind inv.body.peek fun _ ht => .bind (.modify fun _ => inv.pass 1) fun _ _ => .pure ht

theorem eat? (kind : TokenKind) : Keeps I (eat? kind) := fun _ hs =>
  .eat? (fun _ => ⟨inv.pass 1 hs, trivial⟩) fun _ => ⟨hs, trivial⟩

theorem eat (kind : TokenKind) : Keeps I (eat kind) :=
  .bind (inv.eat? kind) fun _ _ => .pure trivial

theorem expect (kind : TokenKind) : Keeps I (expect kind) := fun _ hs =>
  .expect (fun _ => ⟨inv.pass 1 hs, trivial⟩) fun _ => hs

theorem eatWord? (word : String) : Keeps I (eatWord? word) :=
  .bind .get fun _ _ => .ite (fun _ => .map inv.advance fun _ _ => trivial)
    fun _ => .pure trivial

theorem recovering {Q : α → Prop} {fallback : α} {item : Parser α} (hfallback : Q fallback)
    (hitem : Yields I Q item) : Yields I Q (recovering fallback item) :=
  .tryCatch hitem fun e => .bind
    (.modify fun _ hs => inv.toStable.synchronize (inv.toStable.record e hs))
    fun _ _ => .pure hfallback

end Invariant

end Parser

end Graft
