/-
Module: Graft.Proofs.Parser.Repeated
Purpose: Expressions are read again wherever their tokens stand.
Main exports: Parser.Again, Parser.Repeats, Parser.Repeats.of_marks, Parser.again_expr

What a parser does without an error depends on the tokens that it passes and on the next one, however long
the source goes on behind them.  For types and names this is known from their grammar.  An expression is
tried as a constant with all tokens in sight; but no literal behind its end spoils the attempt, and the
search for its end stops where it did.
-/
import Graft.Proofs.Parser.AgreedFiles
import Graft.Proofs.Parser.CleanRuns
import Graft.Proofs.Parser.ConstantErrors

namespace Graft

/-! ### Distances -/

namespace Skip

variable {u r r' : List Token} {x : Token}

/-- A search sees the token that it stops at, and none behind it. -/
theorem untilLength_prefix {terminators : List TokenKind} {depth : Nat}
    (h : untilLength terminators depth (u ++ x :: r) = .closed u.length) :
    untilLength terminators depth (u ++ x :: r') = .closed u.length := by
  induction u generalizing depth with
  | nil =>
      rw [List.nil_append, untilLength] at h ⊢
      split at h
      · rename_i hstop
        rw [if_pos hstop]
        rfl
      · have hcount := congrArg Distance.count h
        simp only [Distance.after, Distance.closed, List.length_nil] at hcount
        omega
  | cons t u ih =>
      rw [List.cons_append, untilLength] at h ⊢
      split at h
      · cases h
      · rename_i hmore
        rw [if_neg hmore, ih, after_closed, List.length_cons, Nat.add_comm]
        have hcount := congrArg Distance.count h
        have hunclosed := congrArg Distance.unclosed h
        simp only [Distance.after, Distance.closed, List.length_cons] at hcount hunclosed ⊢
        exact Distance.mk.injEq .. ▸ ⟨by omega, hunclosed⟩

/-- A search that stops before the end of the tokens stops outside all brackets. -/
theorem untilLength_closed {terminators : List TokenKind} {depth : Nat} {tokens : List Token}
    (h : (untilLength terminators depth tokens).count < tokens.length) :
    (untilLength terminators depth tokens).unclosed = false := by
  induction tokens generalizing depth with
  | nil => exact absurd h (Nat.not_lt_zero _)
  | cons t rest ih =>
      rw [untilLength] at h ⊢
      split at h
      · rename_i hstop
        rw [if_pos hstop]
        rfl
      · rename_i hmore
        rw [if_neg hmore]
        simp only [Distance.after, List.length_cons] at h ⊢
        exact ih (by omega)

/-- Where a search stops, it does so again, whatever comes behind. -/
theorem exists_of_untilLength {terminators : List TokenKind} {tokens : List Token}
    (h : tokens.drop (untilLength terminators 0 tokens).count = x :: r) :
    ∃ u, tokens = u ++ x :: r ∧ ∀ r', untilLength terminators 0 (u ++ x :: r') = .closed u.length := by
  have hsplit : tokens = tokens.take (untilLength terminators 0 tokens).count ++ x :: r := by
    rw [← h, List.take_append_drop]
  have hlength := congrArg List.length h
  rw [List.length_drop, List.length_cons] at hlength
  have htake : (tokens.take (untilLength terminators 0 tokens).count).length =
      (untilLength terminators 0 tokens).count := by
    rw [List.length_take]
    omega
  have hunclosed : (untilLength terminators 0 tokens).unclosed = false := untilLength_closed (by omega)
  have hclosed : untilLength terminators 0 (tokens.take (untilLength terminators 0 tokens).count ++ x :: r) =
      .closed (tokens.take (untilLength terminators 0 tokens).count).length := by
    rw [← hsplit, htake]
    exact Distance.mk.injEq .. ▸ ⟨rfl, hunclosed⟩
  exact ⟨_, hsplit, fun _ => untilLength_prefix hclosed⟩

/-- A group is found in its own tokens. -/
theorem groupLength?_prefix {depth : Nat} (h : groupLength? depth (u ++ r) = some u.length) :
    groupLength? depth (u ++ r') = some u.length := by
  induction u generalizing depth with
  | nil => exact absurd (groupLength?_bounds h).1 (Nat.lt_irrefl 0)
  | cons t u ih =>
      rw [List.cons_append, groupLength?] at h ⊢
      split at h
      · rename_i hclosed
        rw [if_pos hclosed]
        exact h
      · rename_i hopen
        obtain ⟨n, hn, hlength⟩ := Option.map_eq_some_iff.1 h
        rw [if_neg hopen, ih (by rw [hn, Option.some_inj]; simpa using hlength)]
        rfl

end Skip

namespace Parser

variable {α β : Type} {s t : ParserState} {p q : Parser α} {terminators : List TokenKind}

/-- Where no error is reported at the end, none is before. -/
theorem errors_eq_nil_of_keeps {a : α} (keeps : Keeps (fun s => s.errors ≠ []) p) (h : p s = .ok a t)
    (clean : t.errors = []) : s.errors = [] :=
  Classical.byContradiction fun herrors => ((keeps s herrors).of_ok h).1 clean

/-- A token that is expected and passed is of the class. -/
theorem check_of_expect {kind : TokenKind} {token : Token} (h : expect kind s = .ok token t) :
    s.check kind = true ∧ t = s.pass 1 := by
  cases hcheck : s.check kind with
  | true =>
      rw [expect_eq hcheck] at h
      cases h
      exact ⟨rfl, rfl⟩
  | false =>
      rw [expect, bind_eq (eat?_eq_none hcheck)] at h
      cases h

/-! ### Runs that are repeated -/

/-- Where the token `x` comes behind the tokens `u`, the parser passes exactly these and reports nothing. -/
def ConsumesBefore (x : Token) (p : Parser α) (u : List Token) : Prop :=
  ∀ s r, s.unread = u ++ x :: r → s.errors = [] → ∃ a t, p s = .ok a t ∧ t.unread = x :: r ∧ t.errors = []

/-- The tokens between two states, wherever they come before the token that is next in the second state, are
passed by the parser without an error. -/
def Again (p : Parser α) (s t : ParserState) : Prop :=
  ∀ x r, t.unread = x :: r → ∃ u, s.unread = u ++ x :: r ∧ ConsumesBefore x p u

/-- The next token is the first of those that are left. -/
theorem current_of_append {x y : Token} {u r r' : List Token} {s s' : ParserState}
    (h : s.unread = u ++ x :: r) (h' : s'.unread = u ++ x :: r') (hy : s.current = y) : s'.current = y := by
  subst hy
  cases u with
  | nil => rw [current_of_unread h, current_of_unread h']
  | cons z u => rw [current_of_unread h, current_of_unread h']

namespace Again

variable {v : ParserState} {f : α → Parser β}

theorem pure {a : α} : Again (Pure.pure a) t t := fun _ _ hnext =>
  ⟨[], hnext, fun s _ hunread clean => ⟨a, s, rfl, hunread, clean⟩⟩

/-- One parser behind another one. -/
theorem bind (hp : Again p s v) (hf : ∀ a, Again (f a) v t) (a : α) : Again (p >>= f) s t := by
  intro x r hnext
  obtain ⟨w, hw, -⟩ := hf a x r hnext
  obtain ⟨y, rest, hrest⟩ : ∃ y rest, w ++ x :: r = y :: rest := by cases w <;> exact ⟨_, _, rfl⟩
  obtain ⟨u, hu, hrun⟩ := hp y rest (hw.trans hrest)
  refine ⟨u ++ w, by rw [hu, List.append_assoc, hrest], fun s' r' hunread clean => ?_⟩
  obtain ⟨rest', hrest'⟩ : ∃ rest', w ++ x :: r' = y :: rest' := by
    cases w with
    | nil => exact ⟨r', by rw [(List.cons_eq_cons.1 hrest).1]; rfl⟩
    | cons z w => exact ⟨w ++ x :: r', by rw [(List.cons_eq_cons.1 hrest).1]; rfl⟩
  obtain ⟨b, t', hrun', ht', hclean'⟩ := hrun s' rest' (by rw [hunread, List.append_assoc, hrest']) clean
  obtain ⟨w', hw', hruns⟩ := hf b x r hnext
  obtain rfl : w = w' := List.append_cancel_right (hw.symm.trans hw')
  obtain ⟨c, t'', hrun'', ht'', hclean''⟩ := hruns t' r' (ht'.trans hrest'.symm) hclean'
  exact ⟨c, t'', (bind_eq hrun' f).trans hrun'', ht'', hclean''⟩

theorem map {g : α → β} (hp : Again p s t) (a : α) : Again (g <$> p) s t := hp.bind (fun _ => pure) a

/-- What only looks at the state, and goes on. -/
theorem look {q : Parser β} {γ : Type} {g : γ → Parser β} (h : ∀ c, Again (g c) s t) (c : γ)
    (hq : ∀ s, ∃ c, q s = g c s) : Again q s t := by
  intro x r hnext
  obtain ⟨u, hu, -⟩ := h c x r hnext
  refine ⟨u, hu, fun s' r' hunread clean => ?_⟩
  obtain ⟨c', hc'⟩ := hq s'
  obtain ⟨u', hu', hrun⟩ := h c' x r hnext
  obtain rfl : u = u' := List.append_cancel_right (hu.symm.trans hu')
  rw [hc']
  exact hrun s' r' hunread clean

theorem spanFrom {start : Span} {g : Span → Parser β} (h : ∀ span, Again (g span) s t) :
    Again (Parser.spanFrom start >>= g) s t := look h start fun s => ⟨s.spanFrom start, rfl⟩

theorem peek {g : Token → Parser β} (h : ∀ token, Again (g token) s t) : Again (Parser.peek >>= g) s t :=
  look h s.current fun s => ⟨s.current, rfl⟩

/-- What goes on as another parser does where the next token comes. -/
theorem congr {q : Parser α} (hp : Again p s t)
    (hq : ∀ s', s'.current = s.current → s'.atEnd = false → q s' = p s') : Again q s t := by
  intro x r hnext
  obtain ⟨u, hu, hrun⟩ := hp x r hnext
  refine ⟨u, hu, fun s' r' hunread clean => ?_⟩
  have more : s'.atEnd = false := by
    rw [ParserState.atEnd, hunread]
    cases u <;> rfl
  rw [hq s' (current_of_append hu hunread rfl) more]
  exact hrun s' r' hunread clean

/-- What goes on as another parser does where the next two tokens come, of which it passes the first. -/
theorem congr_ahead {q : Parser α} (hp : Again p s t) (moves : t.unread.length < s.unread.length)
    (hq : ∀ s', s'.current = s.current → s'.ahead 1 = s.ahead 1 → q s' = p s') : Again q s t := by
  intro x r hnext
  obtain ⟨u, hu, hrun⟩ := hp x r hnext
  refine ⟨u, hu, fun s' r' hunread clean => ?_⟩
  obtain ⟨y, u, rfl⟩ : ∃ y w, u = y :: w := by
    refine List.exists_cons_of_ne_nil ?_
    rintro rfl
    rw [hu, hnext] at moves
    exact Nat.lt_irrefl _ moves
  rw [hq s' (current_of_append hu hunread rfl)]
  · exact hrun s' r' hunread clean
  · rw [← current_pass, ← current_pass]
    exact current_of_append (unread_cons hu) (unread_cons hunread) rfl

/-- What passes the next token, and goes on as another parser. -/
theorem step {q : Parser α} (hp : Again p (s.pass 1) t) (more : s.atEnd = false)
    (hq : ∀ s', s'.current = s.current → q s' = p (s'.pass 1)) : Again q s t := by
  intro x r hnext
  obtain ⟨u, hu, hrun⟩ := hp x r hnext
  obtain ⟨y, rest, hunread, hy⟩ := ParserState.exists_unread more
  rw [unread_pass_one hunread] at hu
  refine ⟨y :: u, by rw [hunread, hu]; rfl, fun s' r' hunread' clean => ?_⟩
  rw [hq s' ((current_of_unread hunread').trans hy)]
  exact hrun (s'.pass 1) r' (unread_cons hunread') clean

/-- A token of a class is passed. -/
theorem expect {kind : TokenKind} {g : Token → Parser β} (found : s.check kind = true)
    (h : ∀ token, Again (g token) (s.pass 1) t) (hkind : kind ≠ .endOfFile := by decide) :
    Again (Parser.expect kind >>= g) s t :=
  step (h s.current) (ParserState.atEnd_of_check hkind found) fun s' hs' => by
    have found' : s'.check kind = true := by rw [ParserState.check, hs']; exact found
    rw [bind_eq (expect_eq found'), hs']

/-- A token is passed that is of a class, as it was. -/
theorem eat_true {kind : TokenKind} {g : Bool → Parser β} (found : s.check kind = true)
    (h : Again (g true) (s.pass 1) t) (hkind : kind ≠ .endOfFile := by decide) :
    Again (Parser.eat kind >>= g) s t := by
  refine step h (ParserState.atEnd_of_check hkind found) fun s' hs' => ?_
  have found' : s'.check kind = true := by rw [ParserState.check, hs']; exact found
  exact bind_eq (eat_eq_true found') g

/-- No token is passed that is of another class, as it was. -/
theorem eat_false {kind : TokenKind} {g : Bool → Parser β} (missing : s.check kind = false)
    (h : Again (g false) s t) :
    Again (Parser.eat kind >>= g) s t := by
  refine congr h fun s' hs' _ => ?_
  have missing' : s'.check kind = false := by rw [ParserState.check, hs']; exact missing
  exact bind_eq (eat_eq missing') g

/-- What is told from the next token is told as it was. -/
theorem check {kind : TokenKind} {g : Bool → Parser β} (h : Again (g (s.check kind)) s t) :
    Again (Parser.check kind >>= g) s t :=
  congr h fun s' hs' _ => by
    change g (s'.check kind) s' = _
    rw [ParserState.check, hs']
    rfl

end Again

/-- Wherever these tokens come, with nothing reported, the parser passes just them, reports nothing and
yields a value with `Q`. -/
def Repeats (Q : α → Prop) (p : Parser α) (u : List Token) : Prop :=
  ∀ s r, s.unread = u ++ r → s.errors = [] →
    Outcome (fun a t => t.unread = r ∧ t.errors = [] ∧ Q a) (fun _ => False) p s

/-- Tokens that differ in their places only are read alike. -/
theorem Repeats.of_marks {R : α → α → Prop} {Q Q' : α → Prop} {u u' : List Token} (h : Repeats Q p u)
    (agrees : Agrees R p p) (forward : Forward p) (marks : u'.map Token.mark = u.map Token.mark)
    (hQ : ∀ a a', R a a' → Q a → Q' a') : Repeats Q' p u' := by
  intro s' r hunread clean
  have alike : ParserState.Alike { s' with unread := u ++ r } s' := by
    refine ⟨rfl, ?_, rfl, rfl, rfl⟩
    rw [hunread, List.map_append, List.map_append, marks]
  obtain ⟨a, t, hrun, ht, hclean, ha⟩ := (h { s' with unread := u ++ r } r rfl clean).exists_ok
  have hresults := agrees _ _ alike
  rw [hrun] at hresults
  generalize hrun' : p s' = result at hresults
  cases hresults with
  | @ok _ a' _ t' alike' related =>
      refine .of_eq hrun' ⟨?_, ?_, hQ a a' related ha⟩
      · -- as many tokens are left, and they are the last ones
        have hsuffix : t'.unread <:+ s'.unread := ((forward s'.unread s' (List.suffix_refl _)).of_ok hrun').1
        have hlength : t'.unread.length = r.length := by rw [← alike'.length_eq, ht]
        rw [hunread] at hsuffix
        exact (List.suffix_of_suffix_length_le hsuffix (List.suffix_append u' r) hlength.le).eq_of_length
          hlength
      · have hcauses := alike'.errors
        rw [hclean] at hcauses
        exact List.map_eq_nil_iff.1 hcauses.symm

/-! ### Expressions -/

variable {u : List Token}

theorem ne_nil_of_constantPhrase (h : ConstantPhrase .sum u) : u ≠ [] := by
  cases h with
  | sum first _ => simp [(isRead first).1]

/-- Where literals without a value are, the attempt to read a constant comes to none of
them unless it reports it. -/
theorem not_spoiled (h : Outcome (fun _ _ => True) (fun t => t.errors = []) additive s) :
    ¬∃ u v, s.unread = u ++ v ∧ SpoiledPhrase .sum u := by
  rintro ⟨u, v, hunread, hphrase⟩
  obtain ⟨e, t, hrun, ht⟩ := spoils_additive hphrase hunread
  exact ht (h.of_error hrun)

/-- An expression that is read without an error has some tokens, and the attempt to read it as a constant
came to no literal without a value. -/
theorem expr_clean {e : Expr} (h : expr terminators s = .ok e t) (clean : t.errors = []) :
    t.unread.length < s.unread.length ∧ ¬∃ u v, s.unread = u ++ v ∧ SpoiledPhrase .sum u := by
  suffices hrun : Outcome (fun _ t => t.errors = [] → t.unread.length < s.unread.length ∧
      Outcome (fun _ _ => True) (fun t => t.errors = []) additive s) (fun _ => False)
      (expr terminators) s from
    ⟨(hrun.of_ok h clean).1, not_spoiled (hrun.of_ok h clean).2⟩
  have hattempt : Outcome (fun c? t => (∀ e, c? = some e → t.unread.length < s.unread.length) ∧
      (t.errors = [] → Outcome (fun _ _ => True) (fun t => t.errors = []) additive s)) (fun _ => False)
      (attempt additive) s := by
    refine .tryCatch (F := fun t => t.errors = [] →
      Outcome (fun _ _ => True) (fun t => t.errors = []) additive s)
      (.map (Q := fun _ t => t.unread.length < s.unread.length ∧
        Outcome (fun _ _ => True) (fun t => t.errors = []) additive s)
          (.intro (fun e t hok => ⟨?_, .of_eq hok trivial⟩)
          fun e t herror hclean => ?_) fun e t ht => ⟨fun _ _ => ht.1, fun _ => ht.2⟩)
      fun _ t _ ht => .pure ⟨fun _ h => absurd h.symm (Option.some_ne_none _), ht⟩
    · obtain ⟨u, hunread, phrase⟩ := (takes_additive s).of_ok hok
      have hpos := List.length_pos_of_ne_nil (ne_nil_of_constantPhrase phrase)
      rw [hunread, List.length_append]
      omega
    · unfold Outcome
      rw [herror]
      exact hclean
  refine .get <| .bind hattempt fun c? v _ ⟨hshort, hclean⟩ => ?_
  extract_lets rest
  have hrest : Outcome (fun _ t => t.errors = [] → t.unread.length < s.unread.length ∧
      Outcome (fun _ _ => True) (fun t => t.errors = []) additive s) (fun _ => False) (rest ()) v := by
    have hle : ((v.rewind s).skipUntil terminators).unread.length ≤ s.unread.length := by
      rw [(skipUntil_rewind v s).1, ParserState.skipUntil, ParserState.unread_passDistance, List.length_drop]
      omega
    refine .modify <| .modify <| .get <| .ite (fun _ => ?_) fun hlength => .pure fun h => ⟨?_, hclean ?_⟩
    · exact .modify <| .pure fun h => absurd h (by simp [ParserState.report])
    · exact Nat.lt_of_le_of_ne hle hlength
    · exact Classical.byContradiction fun hne =>
        invariant_errors.toStable.skipUntil terminators (s := v.rewind s) hne h
  cases c? with
  | none => exact hrest
  | some e => exact .peek <| .ite (fun _ => .pure fun h => ⟨hshort e rfl, hclean h⟩) fun _ => hrest

/-- An expression that has some tokens and no literal that the attempt to read a constant stumbles over is
read without an error. -/
theorem expr_errors {n : Nat} (clean : s.errors = [])
    (sound : ¬∃ u v, s.unread = u ++ v ∧ SpoiledPhrase .sum u)
    (hlength : Skip.untilLength terminators 0 s.unread = .closed (n + 1)) :
    Outcome (fun _ t => t.errors = []) (fun _ => False) (expr terminators) s := by
  have hattempt : Outcome (fun _ t => t.errors = []) (fun _ => False) (attempt additive) s := by
    refine .tryCatch (F := fun t => t.errors = [])
      (.map ((additive_errors s).mono (fun _ _ h => h.1.trans clean) ?_) fun _ _ h => h) fun _ _ _ h =>
      .pure h
    rintro t (h | h)
    · exact h.trans clean
    · exact absurd h sound
  refine .get <| .bind hattempt fun c? v _ hv => ?_
  extract_lets rest
  have hrest : Outcome (fun _ t => t.errors = []) (fun _ => False) (rest ()) v := by
    have hskip : (v.rewind s).skipUntil terminators = (v.rewind s).pass (n + 1) := by
      rw [ParserState.skipUntil, show (v.rewind s).unread = s.unread from rfl, hlength]
      rfl
    have hle := Skip.count_untilLength_le terminators 0 s.unread
    rw [hlength] at hle
    refine .modify <| .modify ?_
    rw [hskip]
    refine .get <| .ite (fun heq => ?_) fun _ => .pure hv
    have hshort : (s.unread.drop (n + 1)).length = s.unread.length := heq
    rw [List.length_drop] at hshort
    have hpos : n + 1 ≤ s.unread.length := hle
    omega
  cases c? with
  | none => exact hrest
  | some e => exact .peek <| .ite (fun _ => .pure hv) fun _ => hrest

/-- An expression ends where a search for its end does, whether it is constant or not. -/
theorem expr_unread (hterm : terminators ⊆ [.comma, .semicolon, .rightParen]) (s : ParserState) :
    Outcome (fun _ t => t.unread = s.unread.drop (Skip.untilLength terminators 0 s.unread).count)
      (fun _ => False) (expr terminators) s := by
  have hskip : (s.skipUntil terminators).unread =
      s.unread.drop (Skip.untilLength terminators 0 s.unread).count := by
    rw [ParserState.skipUntil, ParserState.unread_passDistance]
  by_cases hphrase : ∃ u v, s.unread = u ++ v ∧ ConstantPhrase .sum u ∧
    (s.pass u.length).current.kind ∈ terminators
  · obtain ⟨u, v, hunread, phrase, hend⟩ := hphrase
    obtain ⟨e, hrun, -, hpass⟩ := expr_of_phrase hterm hunread phrase hend
    exact .of_eq hrun (by rw [← hpass, hskip])
  · obtain ⟨e, t, hrun, -, hunread, -⟩ := expr_of_no_phrase fun u v hunread phrase hend =>
      hphrase ⟨u, v, hunread, phrase, hend⟩
    exact .of_eq hrun (hunread.trans hskip)

/-- An expression that is read without an error is read again. -/
theorem again_expr (hterm : terminators ⊆ [.comma, .semicolon, .rightParen]) {e : Expr}
    (h : expr terminators s = .ok e t) (clean : t.errors = []) : Again (expr terminators) s t := by
  intro x r hnext
  obtain ⟨hshort, hsound⟩ := expr_clean h clean
  obtain ⟨u, hsplit, hclosed⟩ :=
    Skip.exists_of_untilLength (((expr_unread hterm s).of_ok h).symm.trans hnext)
  obtain ⟨n, hn⟩ : ∃ n, u.length = n + 1 := by
    have hlength := congrArg List.length hsplit
    rw [← hnext, List.length_append] at hlength
    exact Nat.exists_eq_add_one_of_ne_zero (by omega)
  refine ⟨u, hsplit, fun s' r' hunread hclean => ?_⟩
  have hclosed' : Skip.untilLength terminators 0 s'.unread = .closed u.length := hunread ▸ hclosed r'
  have hsound' : ¬∃ u v, s'.unread = u ++ v ∧ SpoiledPhrase .sum u := by
    rintro ⟨w, v, hw, hphrase⟩
    have hlength := hphrase.length_le_count hterm v
    rw [← hw, hclosed'] at hlength
    -- the literal is one of the expression's tokens
    obtain ⟨w', rfl⟩ : ∃ w', u = w ++ w' := by
      have hprefix : w <+: u := List.prefix_of_prefix_length_le ⟨v, hw.symm⟩ ⟨x :: r', hunread.symm⟩ hlength
      obtain ⟨w', hw'⟩ := hprefix
      exact ⟨w', hw'.symm⟩
    exact hsound ⟨w, w' ++ x :: r, by rw [hsplit, List.append_assoc], hphrase⟩
  obtain ⟨e', t', hrun, ht'⟩ := (expr_errors hclean hsound' (hn ▸ hclosed')).exists_ok
  refine ⟨e', t', hrun, ?_, ht'⟩
  rw [(expr_unread hterm s').of_ok hrun, hclosed', hunread]
  exact List.drop_left

end Parser

end Graft
