/-
Module: Graft.Proofs.Parser.Agreement
Purpose: Two runs of parsers that differ in places only.
Main exports: ParserState.Alike, Parser.Agrees, Parser.Agrees.bind, Parser.Agrees.fix, Parser.Agrees.many,
  Parser.Agrees.recovering

How far to pass and which way to go is told from the classes and the texts of tokens.  Two runs from states
that differ in places only therefore go the same way, and end in such states again.
-/
import Mathlib.Data.List.Forall2
import Graft.Parser.Expr
import Graft.Proofs.Token.Word

namespace Graft

/-! ### Distances -/

namespace Skip

theorem depthAfter_congr {t t' : Token} (h : t.kind = t'.kind) (depth : Nat) :
    depthAfter depth t = depthAfter depth t' := by
  rw [depthAfter, depthAfter, h]

theorem groupLength?_congr {list list' : List Token} (h : list.map Token.kind = list'.map Token.kind)
    (depth : Nat) :
    groupLength? depth list = groupLength? depth list' := by
  induction list generalizing list' depth with
  | nil => rw [List.map_eq_nil_iff.1 h.symm]
  | cons t rest ih =>
      obtain ⟨t', rest', rfl, hkind, hrest⟩ := List.map_eq_cons_iff.1 h.symm
      rw [groupLength?, groupLength?, depthAfter_congr hkind, ih hrest.symm]

theorem untilLength_congr {list list' : List Token} (h : list.map Token.kind = list'.map Token.kind)
    (terminators : List TokenKind) (depth : Nat) :
    untilLength terminators depth list = untilLength terminators depth list' := by
  induction list generalizing list' depth with
  | nil => rw [List.map_eq_nil_iff.1 h.symm]
  | cons t rest ih =>
      obtain ⟨t', rest', rfl, hkind, hrest⟩ := List.map_eq_cons_iff.1 h.symm
      rw [untilLength, untilLength, depthAfter_congr hkind, hkind, ih hrest.symm]

theorem resumeLength_congr {list list' : List Token} (h : list.map Token.kind = list'.map Token.kind)
    (moved : Bool) :
    resumeLength moved list = resumeLength moved list' := by
  -- a group is passed at once, so that the induction is on the number of tokens that are left
  induction hlength : list.length using Nat.strongRecOn generalizing list list' moved with
  | _ length ih =>
      cases list with
      | nil => rw [List.map_eq_nil_iff.1 h.symm]
      | cons t rest =>
          obtain ⟨t', rest', rfl, hkind, hrest⟩ := List.map_eq_cons_iff.1 h.symm
          have hsame : rest'.length = rest.length := by simpa using congrArg List.length hrest
          have hless : ∀ count, (rest.drop count).length < length := fun count => by
            rw [← hlength, List.length_drop, List.length_cons]
            omega
          have hdrop : ∀ count, (rest.drop count).map Token.kind = (rest'.drop count).map Token.kind :=
            fun count => by
            rw [List.map_drop, List.map_drop, hrest]
          have hhead : ∀ count, (rest.drop count).head?.any (fun u => decide (u.kind = .semicolon)) =
              (rest'.drop count).head?.any fun u => decide (u.kind = .semicolon) := fun count => by
            have hmap := congrArg (fun kinds => kinds.head?.any fun kind =>
              decide (kind = TokenKind.semicolon)) (hdrop count)
            simpa [List.head?_map, Option.any_map, Function.comp_def] using hmap
          have hnext : ∀ count, resumeLength true (rest.drop count) = resumeLength true (rest'.drop count) :=
            fun count => ih _ (hless count) (hdrop count) true rfl
          have hstep := hnext 0
          rw [List.drop_zero, List.drop_zero] at hstep
          rw [resumeLength, resumeLength, hkind, groupLength?_congr h, hsame, hstep]
          simp only [hhead, hnext]

end Skip

/-! ### States -/

namespace ParserState

/-- States that differ in places only. -/
structure Alike (s s' : ParserState) : Prop where
  source : s.source = s'.source
  unread : s.unread.map Token.mark = s'.unread.map Token.mark
  errors : s.errors.map (·.cause) = s'.errors.map (·.cause)
  panicking : s.panicking = s'.panicking
  nextDecl : s.nextDecl = s'.nextDecl

namespace Alike

variable {s s' start start' : ParserState} (h : s.Alike s')
include h

theorem kinds : s.unread.map Token.kind = s'.unread.map Token.kind := by
  have hkinds := congrArg (List.map Prod.fst) h.unread
  rwa [List.map_map, List.map_map] at hkinds

theorem length_eq : s.unread.length = s'.unread.length := by
  have hlength := congrArg List.length h.unread
  rwa [List.length_map, List.length_map] at hlength

theorem ahead (n : Nat) : (s.ahead n).mark = (s'.ahead n).mark := by
  have hget := congrArg (·[n]?) h.unread
  simp only [List.getElem?_map] at hget
  unfold ParserState.ahead
  cases hn : s.unread[n]? with
  | none =>
      rw [hn] at hget
      rw [Option.map_eq_none_iff.1 hget.symm]
      rfl
  | some t =>
      rw [hn] at hget
      obtain ⟨t', ht', hmark⟩ := Option.map_eq_some_iff.1 hget.symm
      rw [ht']
      exact hmark.symm

theorem kind_ahead (n : Nat) : (s.ahead n).kind = (s'.ahead n).kind := Token.kind_eq_of_mark (h.ahead n)

theorem lexeme_ahead (n : Nat) : (s.ahead n).lexeme = (s'.ahead n).lexeme :=
  Token.lexeme_eq_of_mark (h.ahead n)

theorem kind_current : s.current.kind = s'.current.kind := h.kind_ahead 0

theorem lexeme_current : s.current.lexeme = s'.current.lexeme := h.lexeme_ahead 0

theorem check (kind : TokenKind) : s.check kind = s'.check kind := by
  rw [ParserState.check, ParserState.check, h.kind_current]

theorem checkWord (word : String) : s.checkWord word = s'.checkWord word := by
  rw [ParserState.checkWord, ParserState.checkWord, h.kind_current, h.lexeme_current]

theorem atEnd : s.atEnd = s'.atEnd := by
  rw [ParserState.atEnd, ParserState.atEnd, ← List.isEmpty_map, h.unread, List.isEmpty_map]

theorem unexpected (what : String) : (s.unexpected what).cause = (s'.unexpected what).cause := by
  unfold ParserState.unexpected
  dsimp only
  rw [h.kind_current, h.lexeme_current]
  split <;> rfl

theorem pass (count : Nat) : (s.pass count).Alike (s'.pass count) where
  __ := h
  unread := by
    change (s.unread.drop count).map Token.mark = (s'.unread.drop count).map Token.mark
    rw [List.map_drop, List.map_drop, h.unread]

theorem report {e e' : ParseError} (cause : e.cause = e'.cause) : (s.report e).Alike (s'.report e') where
  __ := h
  errors := by
    change (s.errors ++ [e]).map (·.cause) = (s'.errors ++ [e']).map (·.cause)
    rw [List.map_append, List.map_append, h.errors, List.map_singleton, List.map_singleton, cause]

theorem record {e e' : ParseError} (cause : e.cause = e'.cause) : (s.record e).Alike (s'.record e') := by
  unfold ParserState.record
  rw [h.panicking]
  split
  · exact h
  · exact { h.report cause with panicking := rfl }

/-- Both states go back. -/
theorem rewind (hstart : start.Alike start') : (s.rewind start).Alike (s'.rewind start') :=
  { h with unread := hstart.unread }

theorem passDistance (d : Skip.Distance) : (s.passDistance d).Alike (s'.passDistance d) := by
  unfold ParserState.passDistance
  dsimp only
  split
  · exact (h.pass d.count).record rfl
  · exact h.pass d.count

theorem skipGroup : s.skipGroup.Alike s'.skipGroup := by
  unfold ParserState.skipGroup
  rw [Skip.groupLength?_congr h.kinds, h.length_eq]
  split
  · exact h.pass _
  · exact h.passDistance _

theorem skipUntil (terminators : List TokenKind) :
    (s.skipUntil terminators).Alike (s'.skipUntil terminators) := by
  unfold ParserState.skipUntil
  rw [Skip.untilLength_congr h.kinds]
  exact h.passDistance _

theorem synchronize : s.synchronize.Alike s'.synchronize := by
  have hquiet : Alike { s with panicking := false } { s' with panicking := false } :=
    { h with panicking := rfl }
  unfold ParserState.synchronize
  rw [Skip.resumeLength_congr h.kinds]
  exact hquiet.passDistance _

end Alike

end ParserState

/-! ### Runs -/

namespace Parser

variable {α α' β β' ι ι' : Type}

/-- Values that a view shows to be the same. -/
abbrev EqualBy {γ : Type} (view : α → γ) (a b : α) : Prop := view a = view b

/-- Both runs end in states that differ in places only, with values that are related or
with errors of one cause. -/
inductive Results (R : α → α' → Prop) :
    EStateM.Result ParseError ParserState α → EStateM.Result ParseError ParserState α' → Prop where
  | ok {a : α} {a' : α'} {s s' : ParserState} (alike : s.Alike s') (related : R a a') :
      Results R (.ok a s) (.ok a' s')
  | error {e e' : ParseError} {s s' : ParserState} (alike : s.Alike s') (cause : e.cause = e'.cause) :
      Results R (.error e s) (.error e' s')

/-- From states that differ in places only, the runs of two parsers agree. -/
def Agrees (R : α → α' → Prop) (p : Parser α) (p' : Parser α') : Prop :=
  ∀ s s', s.Alike s' → Results R (p s) (p' s')

theorem forall₂_iff_map_eq {γ : Type} {view : α → γ} {list list' : List α} :
    List.Forall₂ (EqualBy view) list list' ↔ list.map view = list'.map view := by
  rw [← List.forall₂_eq_eq_eq, List.forall₂_map_left_iff, List.forall₂_map_right_iff]

theorem rel_iff_map_eq {γ : Type} {view : α → γ} {a? b? : Option α} :
    Option.Rel (EqualBy view) a? b? ↔ a?.map view = b?.map view := by
  cases a? <;> cases b? <;> simp [EqualBy]

namespace Agrees

variable {R : α → α' → Prop} {S : β → β' → Prop} {p q : Parser α} {p' q' : Parser α'} {f : α → Parser β}
  {f' : α' → Parser β'}

theorem pure {a : α} {a' : α'} (h : R a a') : Agrees R (Pure.pure a) (Pure.pure a') := fun _ _ hs => .ok hs h

theorem throw {e e' : ParseError} (cause : e.cause = e'.cause) :
    Agrees R (MonadExcept.throw e) (MonadExcept.throw e') := fun _ _ hs => .error hs cause

theorem bind (hp : Agrees R p p') (hf : ∀ a a', R a a' → Agrees S (f a) (f' a')) :
    Agrees S (p >>= f) (p' >>= f') := by
  intro s s' hs
  have h := hp s s' hs
  change Results S (EStateM.bind p f s) (EStateM.bind p' f' s')
  unfold EStateM.bind
  revert h
  generalize p s = result
  generalize p' s' = result'
  intro h
  cases h with
  | ok alike related => exact hf _ _ related _ _ alike
  | error alike cause => exact .error alike cause

theorem map {g : α → β} {g' : α' → β'} (hp : Agrees R p p') (hg : ∀ a a', R a a' → S (g a) (g' a')) :
    Agrees S (g <$> p) (g' <$> p') :=
  (hp.bind fun a a' h => pure (hg a a' h) : Agrees S (p >>= fun a => Pure.pure (g a))
    (p' >>= fun a => Pure.pure (g' a)))

theorem mono {R' : α → α' → Prop} (hp : Agrees R p p') (h : ∀ a a', R a a' → R' a a') : Agrees R' p p' := by
  intro s s' hs
  have hrun := hp s s' hs
  revert hrun
  generalize p s = result
  generalize p' s' = result'
  intro hrun
  cases hrun with
  | ok alike related => exact .ok alike (h _ _ related)
  | error alike cause => exact .error alike cause

theorem ite {c c' : Prop} [Decidable c] [Decidable c'] (hc : c ↔ c') (hp : Agrees R p p')
    (hq : Agrees R q q') :
    Agrees R (if c then p else q) (if c' then p' else q') := by
  by_cases h : c
  · rw [if_pos h, if_pos (hc.1 h)]
    exact hp
  · rw [if_neg h, if_neg fun h' => h (hc.2 h')]
    exact hq

theorem get : Agrees ParserState.Alike (MonadState.get : Parser ParserState) MonadState.get :=
  fun _ _ hs => .ok hs hs

theorem modify {g g' : ParserState → ParserState} (hg : ∀ s s', s.Alike s' → (g s).Alike (g' s')) :
    Agrees (fun _ _ => True) (modify g : Parser PUnit) (modify g' : Parser PUnit) :=
  fun s s' hs => .ok (hg s s' hs) trivial

/-- Errors of one cause are handled alike. -/
theorem tryCatch {handle : ParseError → Parser α} {handle' : ParseError → Parser α'} (hp : Agrees R p p')
    (hhandle : ∀ e e', e.cause = e'.cause → Agrees R (handle e) (handle' e')) :
    Agrees R (MonadExcept.tryCatch p handle) (MonadExcept.tryCatch p' handle') := by
  intro s s' hs
  have h := hp s s' hs
  change Results R (EStateM.tryCatch p handle s) (EStateM.tryCatch p' handle' s')
  unfold EStateM.tryCatch
  dsimp only
  revert h
  generalize p s = result
  generalize p' s' = result'
  intro h
  cases h with
  | ok alike related => exact .ok alike related
  | error alike cause => exact hhandle _ _ cause _ _ alike

/-! ### Single tokens -/

theorem peek : Agrees (EqualBy Token.mark) peek Parser.peek := bind get fun _ _ hs => pure (hs.ahead 0)

theorem kindAhead (n : Nat) : Agrees Eq (kindAhead n) (Parser.kindAhead n) :=
  bind get fun _ _ hs => pure (hs.kind_ahead n)

theorem check (kind : TokenKind) : Agrees Eq (check kind) (Parser.check kind) :=
  bind get fun _ _ hs => pure (hs.check kind)

theorem atEnd : Agrees Eq atEnd Parser.atEnd := bind get fun _ _ hs => pure hs.atEnd

theorem advance : Agrees (EqualBy Token.mark) advance Parser.advance :=
  bind peek fun _ _ ht => bind (modify fun _ _ hs => hs.pass 1) fun _ _ _ => pure ht

theorem eat? (kind : TokenKind) : Agrees (Option.Rel (EqualBy Token.mark)) (eat? kind) (Parser.eat? kind) :=
  bind (check kind) fun _ _ hcheck => ite (by rw [hcheck]) (map advance fun _ _ ht => .some ht) (pure .none)

theorem eat (kind : TokenKind) : Agrees Eq (eat kind) (Parser.eat kind) :=
  bind (eat? kind) fun t? t?' h => pure (by cases h <;> rfl)

theorem expect (kind : TokenKind) : Agrees (EqualBy Token.mark) (expect kind) (Parser.expect kind) := by
  refine bind (eat? kind) fun t? t?' h => ?_
  cases h with
  | none => exact bind get fun _ _ hs => throw (hs.unexpected kind.description)
  | some ht => exact pure ht

theorem eatWord? (word : String) :
    Agrees (Option.Rel (EqualBy Token.mark)) (eatWord? word) (Parser.eatWord? word) :=
  bind get fun _ _ hs => ite (by rw [hs.checkWord]) (map advance fun _ _ ht => .some ht) (pure .none)

theorem spanFrom (start start' : Span) :
    Agrees (fun _ _ => True) (spanFrom start) (Parser.spanFrom start') :=
  bind get fun _ _ _ => pure trivial

theorem failExpecting (what : String) : Agrees R (failExpecting what) (Parser.failExpecting what) :=
  bind get fun _ _ hs => throw (hs.unexpected what)

theorem failAt (cause : String → ParseCause) : Agrees R (failAt cause) (Parser.failAt cause) :=
  bind peek fun _ _ ht => throw (congrArg cause (Token.lexeme_eq_of_mark ht))

theorem whenever {test test' : Parser Bool} (htest : Agrees Eq test test') (hp : Agrees R p p') :
    Agrees (Option.Rel R) (whenever test p) (Parser.whenever test' p') :=
  bind htest fun _ _ h => ite (by rw [h]) (map hp fun _ _ hvalue => .some hvalue) (pure .none)

/-! ### Recursion -/

/-- A production that occurs inside itself: both runs have as many tokens to read, so they
unfold it equally often. -/
theorem fix {I : ι → ι' → Prop} {R : α → α' → Prop} {step : (ι → Parser α) → ι → Parser α}
    {step' : (ι' → Parser α') → ι' → Parser α'}
    (hstep : ∀ inner inner', (∀ i i', I i i' → Agrees R (inner i) (inner' i')) →
      ∀ i i', I i i' → Agrees R (step inner i) (step' inner' i'))
    {i : ι} {i' : ι'} (hi : I i i') : Agrees R (Parser.fix step i) (Parser.fix step' i') := by
  have hunfold : ∀ rounds i i', I i i' → Agrees R (unfold step rounds i) (unfold step' rounds i') := by
    intro rounds
    induction rounds with
    | zero => exact fun _ _ _ => bind peek fun _ _ _ => throw rfl
    | succ rounds ih => exact fun i i' hi => hstep _ _ ih i i' hi
  intro s s' hs
  have hrun := hunfold (s.unread.length + 1) i i' hi s s' hs
  rw [Parser.fix, Parser.fix, ← hs.length_eq]
  exact hrun

theorem many {item : Parser (Option α)} {item' : Parser (Option α')}
    (hitem : Agrees (Option.Rel R) item item') :
    Agrees (List.Forall₂ R) (many item) (Parser.many item') := by
  refine fix (I := fun _ _ => True) (fun rest rest' hrest _ _ _ => ?_) trivial
  refine bind hitem fun a? b? h => ?_
  cases h with
  | none => exact pure .nil
  | some hab => exact bind (hrest () () trivial) fun _ _ hlist => pure (.cons hab hlist)

theorem separated (hp : Agrees R p p') : Agrees (List.Forall₂ R) (separated p) (Parser.separated p') := by
  refine fix (I := fun _ _ => True) (fun rest rest' hrest _ _ _ => ?_) trivial
  refine bind hp fun _ _ hvalue => bind (eat .comma) fun _ _ hcomma =>
    ite (by rw [hcomma]) ?_ (pure (.cons hvalue .nil))
  exact bind (hrest () () trivial) fun _ _ hlist => pure (.cons hvalue hlist)

/-! ### Errors and passed tokens -/

theorem skipGroup : Agrees (fun _ _ => True) skipGroup Parser.skipGroup := modify fun _ _ hs => hs.skipGroup

theorem skipUntil (terminators : List TokenKind) :
    Agrees (fun _ _ => True) (skipUntil terminators) (Parser.skipUntil terminators) :=
  modify fun _ _ hs => hs.skipUntil terminators

theorem recovering {fallback : α} {fallback' : α'} (hfallback : R fallback fallback') (hp : Agrees R p p') :
    Agrees R (recovering fallback p) (Parser.recovering fallback' p') :=
  tryCatch hp fun _ _ cause =>
    bind (modify fun _ _ hs => (hs.record cause).synchronize) fun _ _ _ => pure hfallback

theorem attempt (hp : Agrees R p p') : Agrees (Option.Rel R) (attempt p) (Parser.attempt p') :=
  tryCatch (map hp fun _ _ hvalue => .some hvalue) fun _ _ _ => pure .none

end Agrees

end Parser

end Graft
