/-
Module: Graft.Proofs.Parser.RepeatedHeads
Purpose: Attributes and modifiers are read again wherever their tokens stand.
Main exports: Parser.again_namedType, Parser.again_attributeLists, Parser.again_modifiers,
  Parser.again_memberHead

What stands before the keyword of a declaration ends before a name that is no modifier.  Each list of
attributes is read again since its arguments are, and the lists and modifiers are read
again one after another.
-/
import Graft.Proofs.Parser.Repeated

namespace Graft.Parser

variable {α β : Type} {s t : ParserState} {p q : Parser α}

/-! ### Attributes -/

/-- The value of an argument, whatever is said about what it is for. -/
def argumentValue (role : ArgumentRole) (start : Span) : Parser ArgumentSyntax := do
  let value ← expr [.comma, .rightParen]
  return ⟨role, value, ← spanFrom start⟩

/-- The next tokens are the name of an argument and what stands behind it. -/
def isNamedArgument (s : ParserState) : Bool :=
  s.check .identifier && (decide ((s.ahead 1).kind = .equal) || decide ((s.ahead 1).kind = .colon))

theorem argument_eq (s : ParserState) : argument s =
    if isNamedArgument s then argumentValue (if (s.ahead 1).kind = .colon then
      .parameter ⟨s.current.name, s.current.span⟩ else .property ⟨s.current.name, s.current.span⟩)
        s.current.span ((s.pass 1).pass 1)
    else argumentValue .positional s.current.span s := by
  change (if isNamedArgument s then _ else _ : Parser ArgumentSyntax) s = _
  split <;> rfl

theorem again_argument {a : ArgumentSyntax} (h : argument s = .ok a t) (clean : t.errors = []) :
    Again argument s t ∧ t.unread.length < s.unread.length := by
  have hvalue : ∀ {s : ParserState} {role : ArgumentRole} {start : Span},
      argumentValue role start s = .ok a t →
      (∀ role start, Again (argumentValue role start) s t) ∧ t.unread.length < s.unread.length := by
    intro s role start hrun
    obtain ⟨value, v, hexpr, hrun⟩ := exists_of_bind hrun
    cases hrun
    refine ⟨fun role start => ?_, (expr_clean hexpr clean).1⟩
    exact (again_expr (by simp) hexpr clean).bind (fun _ => .spanFrom fun _ => .pure) value
  have hsame : ∀ {s' : ParserState}, s'.current = s.current → s'.ahead 1 = s.ahead 1 →
      isNamedArgument s' = isNamedArgument s := fun hcurrent hahead => by
    rw [isNamedArgument, isNamedArgument, ParserState.check, ParserState.check, hcurrent, hahead]
  have hargument := argument_eq s
  rw [h] at hargument
  by_cases hnamed : isNamedArgument s = true
  · rw [if_pos hnamed] at hargument
    obtain ⟨hrun, hshort⟩ := hvalue hargument.symm
    obtain ⟨hname, hseparator⟩ := Bool.and_eq_true_iff.1 hnamed
    have hmore : (s.pass 1).atEnd = false := by
      rw [Bool.or_eq_true, decide_eq_true_eq, decide_eq_true_eq, ← current_pass] at hseparator
      rcases hseparator with hkind | hkind <;>
        exact ParserState.atEnd_of_check (by rw [hkind]; decide) (decide_eq_true rfl)
    have hless : ((s.pass 1).pass 1).unread.length < s.unread.length := by
      have hpass := ParserState.pass_lt_of_check (show TokenKind.identifier ≠ .endOfFile by decide) hname
      rw [ParserState.unread_pass, List.length_drop]
      omega
    refine ⟨?_, by omega⟩
    have hinside := hrun (if (s.ahead 1).kind = .colon then .parameter ⟨s.current.name, s.current.span⟩ else
      .property ⟨s.current.name, s.current.span⟩) s.current.span
    refine .congr_ahead (.step (.step hinside hmore fun _ _ => rfl)
      (ParserState.atEnd_of_check (by decide) hname) fun _ _ => rfl) (by omega) fun s' hcurrent hahead => ?_
    rw [argument_eq, if_pos (by rw [hsame hcurrent hahead, hnamed]), hcurrent, hahead]
  · rw [if_neg hnamed] at hargument
    obtain ⟨hrun, hshort⟩ := hvalue hargument.symm
    refine ⟨.congr_ahead (hrun .positional s.current.span) hshort fun s' hcurrent hahead => ?_, hshort⟩
    rw [argument_eq, if_neg (by rwa [hsame hcurrent hahead]), hcurrent]

/-- The arguments of an attribute are read again before the parenthesis that closes them. -/
theorem again_arguments {list : List ArgumentSyntax} (h : arguments s = .ok list t) (clean : t.errors = [])
    (closing : t.check .rightParen = true) : Again arguments s t := by
  -- an argument, and what stands behind it
  have hround : ∀ s : ParserState, arguments s = if s.check .rightParen || s.atEnd then .ok [] s else (do
      let value ← argument
      if ← eat .comma then return value :: (← arguments) else return [value]) s := fun s => by
    refine (congrFun (loopsAdvance.arguments.eq ()) s).trans ?_
    change (if (s.check .rightParen || s.atEnd) = true then _ else _ : Parser (List ArgumentSyntax)) s = _
    split <;> rfl
  induction hlength : s.unread.length using Nat.strongRecOn generalizing s list with
  | _ n ih =>
      have hlist := hround s
      rw [h] at hlist
      by_cases hend : (s.check .rightParen || s.atEnd) = true
      · rw [if_pos hend] at hlist
        cases hlist
        refine .congr (p := Pure.pure []) .pure fun s' hs' _ => ?_
        rw [hround, if_pos (by rw [ParserState.check, hs', Bool.or_eq_true]; exact .inl closing)]
        rfl
      · rw [if_neg hend] at hlist
        obtain ⟨value, v, hvalue, hrest⟩ := exists_of_bind hlist.symm
        rw [Bool.or_eq_true, not_or] at hend
        suffices hmore : v.errors = [] ∧ ∀ value, Again (do
            if ← eat .comma then return value :: (← arguments) else return [value]) v t from
          .congr ((again_argument hvalue hmore.1).1.bind hmore.2 value) fun s' hs' more => by
            rw [hround, if_neg]
            rw [Bool.or_eq_true, not_or, more, ParserState.check, hs']
            exact ⟨hend.1, Bool.false_ne_true⟩
        cases hcomma : v.check .comma with
        | false =>
            rw [bind_eq (eat_eq hcomma)] at hrest
            cases hrest
            exact ⟨clean, fun value => .eat_false hcomma .pure⟩
        | true =>
            rw [bind_eq (eat_eq_true hcomma)] at hrest
            obtain ⟨more, w, hmore, hrest⟩ := exists_of_bind (p := arguments) hrest
            cases hrest
            have hclean : (v.pass 1).errors = [] :=
              errors_eq_nil_of_keeps invariant_errors.toInvariant.body.arguments hmore clean
            have hshort := ParserState.pass_lt_of_check (show TokenKind.comma ≠ .endOfFile by decide) hcomma
            have hvalueShort := (again_argument hvalue hclean).2
            refine ⟨hclean, fun value => .eat_true hcomma ?_⟩
            exact (ih _ (by omega) hmore rfl).bind (fun _ => .pure) more

theorem again_namedType {withArgs : Bool} {name : NamedType} (h : namedType withArgs s = .ok name t)
    (hnext : t.current.kind ∉ nameGoesOn) : Again (namedType withArgs) s t := by
  intro x r hunread
  obtain ⟨u, hu, phrase⟩ := (takes_namedType withArgs s).of_ok h
  rw [hunread] at hu
  refine ⟨u, hu, fun s' r' hunread' clean => ?_⟩
  have hbehind := unread_pass hunread'
  obtain ⟨name', hrun, -⟩ := consumes_namedType phrase s' _ hunread' (by
    rwa [current_of_unread hbehind, ← current_of_unread hunread])
  exact ⟨name', _, hrun, hbehind, clean⟩

/-- The arguments of an attribute, if it has some, and its end. -/
def attributeEnd (start : Span) (name : NamedType) : Parser AttributeSyntax := do
  let arguments ←
    if ← eat .leftParen then do
      let list ← arguments
      let _ ← expect .rightParen
      pure list
    else pure []
  return ⟨name, arguments, ← spanFrom start⟩

theorem again_attributeEnd {start : Span} {name : NamedType} {a : AttributeSyntax}
    (h : attributeEnd start name s = .ok a t) (clean : t.errors = []) (hnext : t.current.kind ∉ nameGoesOn) :
    (∀ start name, Again (attributeEnd start name) s t) ∧ s.current.kind ∉ nameGoesOn := by
  cases hparen : s.check .leftParen with
  | false =>
      change (eat .leftParen >>= _) s = _ at h
      rw [bind_eq (eat_eq hparen)] at h
      cases h
      exact ⟨fun start name => .eat_false hparen <| .spanFrom fun _ => .pure, hnext⟩
  | true =>
      change (eat .leftParen >>= _) s = _ at h
      rw [bind_eq (eat_eq_true hparen)] at h
      obtain ⟨list, v, hlist, h⟩ := exists_of_bind (p := arguments) h
      obtain ⟨_, w, hclose, h⟩ := exists_of_bind (p := expect .rightParen) h
      cases h
      obtain ⟨hclosing, rfl⟩ := check_of_expect hclose
      refine ⟨fun start name => .eat_true hparen ?_, ?_⟩
      · exact (again_arguments hlist clean hclosing).bind (fun list => .expect hclosing fun _ =>
          .spanFrom fun _ => .pure) list
      · rw [kind_of_check hparen]
        decide

theorem forward_attributeItem : Forward attributeItem := fun tokens =>
  (ParserState.invariant_suffix tokens).body.attributeItem

theorem again_attributeItem {a : AttributeSyntax} (h : attributeItem s = .ok a t) (clean : t.errors = [])
    (hnext : t.current.kind ∉ nameGoesOn) : Again attributeItem s t := by
  change (namedType true >>= attributeEnd s.current.span) s = _ at h
  obtain ⟨name, v, hname, h⟩ := exists_of_bind h
  obtain ⟨hend, hkind⟩ := again_attributeEnd h clean hnext
  exact .peek fun token => (again_namedType hname hkind).bind (hend token.span) name

/-- What comes behind parsers that do the same does the same. -/
theorem bind_congr_run {f : α → Parser β} (h : p s = q t) : (p >>= f) s = (q >>= f) t := by
  change EStateM.bind p f s = EStateM.bind q f t
  unfold EStateM.bind
  rw [h]

/-- Further attributes are read one after another, each behind a comma.  One comma
may stand before the end. -/
theorem many_attributeRound : many attributeRound = (do
    if ← eat .comma then
      if ← check .rightBracket then return [] else
        let a ← attributeItem
        let more ← many attributeRound
        return a :: more
    else return []) := by
  refine loopsAdvance.attributes.eq.trans (funext fun s => ?_)
  cases hcomma : s.check .comma with
  | false =>
      rw [bind_eq (eat_eq hcomma)]
      have hround : attributeRound s = .ok none s := bind_eq (eat_eq hcomma) _
      exact bind_eq hround _
  | true =>
      rw [bind_eq (eat_eq_true hcomma)]
      have hround : attributeRound s =
          (do if ← check .rightBracket then return none else some <$> attributeItem :
            Parser (Option AttributeSyntax)) (s.pass 1) := bind_eq (eat_eq_true hcomma) _
      rw [bind_congr_run hround]
      change
        ((if (s.pass 1).check .rightBracket = true then _ else _ : Parser (Option AttributeSyntax)) >>= _)
            (s.pass 1) =
          (if (s.pass 1).check .rightBracket = true then _ else _ : Parser (List AttributeSyntax)) (s.pass 1)
      split
      · rfl
      · rw [bind_map_left]

theorem keeps_errors_attributeRounds : Keeps (fun s => s.errors ≠ []) (many attributeRound) :=
  .keeps_many (.bind (invariant_errors.toInvariant.eat _) fun _ _ =>
    .ite (fun _ => .bind (.check _) fun _ _ =>
    .ite (fun _ => .pure trivial) fun _ =>
      .map invariant_errors.toInvariant.body.attributeItem fun _ _ => trivial) fun _ => .pure trivial)

/-- The further attributes of a list are read again before the bracket that closes it. -/
theorem again_attributeRounds {list : List AttributeSyntax} (h : many attributeRound s = .ok list t)
    (clean : t.errors = []) (closing : t.check .rightBracket = true) :
    Again (many attributeRound) s t ∧ s.current.kind ∉ nameGoesOn := by
  induction hlength : s.unread.length using Nat.strongRecOn generalizing s list with
  | _ n ih =>
      suffices hrun : Again (do
          if ← eat .comma then
            if ← check .rightBracket then return [] else
              let a ← attributeItem
              let more ← many attributeRound
              return a :: more
          else return []) s t ∧ s.current.kind ∉ nameGoesOn from
        ⟨.congr hrun.1 fun s' _ _ => congrFun many_attributeRound s', hrun.2⟩
      rw [congrFun many_attributeRound s] at h
      cases hcomma : s.check .comma with
      | false =>
          rw [bind_eq (eat_eq hcomma)] at h
          cases h
          exact ⟨.eat_false hcomma .pure, by rw [kind_of_check closing]; decide⟩
      | true =>
          rw [bind_eq (eat_eq_true hcomma)] at h
          refine ⟨.eat_true hcomma <| .check ?_, by rw [kind_of_check hcomma]; decide⟩
          change (if (s.pass 1).check .rightBracket = true then _ else _ : Parser (List AttributeSyntax))
            (s.pass 1) = _ at h
          split at h
          · rename_i hend
            cases h
            rw [hend]
            exact .pure
          · rename_i hmore
            rw [Bool.eq_false_iff.2 hmore]
            obtain ⟨a, v, ha, h⟩ := exists_of_bind h
            obtain ⟨more, w, hrounds, h⟩ := exists_of_bind h
            cases h
            have hshort := ParserState.pass_lt_of_check (show TokenKind.comma ≠ .endOfFile by decide) hcomma
            have hforward : v.unread.length ≤ (s.pass 1).unread.length :=
              (forward_attributeItem.length_le _).of_ok ha
            have hclean := errors_eq_nil_of_keeps keeps_errors_attributeRounds hrounds clean
            obtain ⟨hagain, hkind⟩ := ih _ (by omega) hrounds rfl
            exact (again_attributeItem ha hclean hkind).bind (fun a => hagain.bind (fun _ => .pure) more) a

/-- What a list of attributes holds, once it is known what it is about. -/
def attributeListEnd (start : Span) (target? : Option Ident) : Parser AttributeList := do
  let first ← attributeItem
  let more ← many attributeRound
  let _ ← expect .rightBracket
  return ⟨target?, first :: more, ← spanFrom start⟩

theorem again_attributeListEnd {start : Span} {target? : Option Ident} {list : AttributeList}
    (h : attributeListEnd start target? s = .ok list t) (clean : t.errors = []) :
    (∀ start target?, Again (attributeListEnd start target?) s t) ∧ t.unread.length < s.unread.length := by
  obtain ⟨first, v, hfirst, h⟩ := exists_of_bind h
  obtain ⟨more, w, hmore, h⟩ := exists_of_bind h
  obtain ⟨_, x, hclose, h⟩ := exists_of_bind h
  cases h
  obtain ⟨hclosing, rfl⟩ := check_of_expect hclose
  have hclean : v.errors = [] := errors_eq_nil_of_keeps keeps_errors_attributeRounds hmore clean
  obtain ⟨hrounds, hkind⟩ := again_attributeRounds hmore clean hclosing
  refine ⟨fun start target? => ?_, ?_⟩
  · exact (again_attributeItem hfirst hclean hkind).bind
      (fun first => hrounds.bind (fun _ => .expect hclosing fun _ =>
      .spanFrom fun _ => .pure) more) first
  · have hitem : v.unread.length ≤ s.unread.length := (forward_attributeItem.length_le s).of_ok hfirst
    have hrounds : Forward (many attributeRound) := .many (.bind (.eat _) fun _ => .ite
      (fun _ => .bind (.check _) fun _ => .ite (fun _ => .pure) fun _ =>
      .map forward_attributeItem) fun _ => .pure)
    have hlist : w.unread.length ≤ v.unread.length := (hrounds.length_le v).of_ok hmore
    have hpass := ParserState.pass_lt_of_check (show TokenKind.rightBracket ≠ .endOfFile by decide) hclosing
    omega

/-- What stands between the brackets of a list of attributes, and the closing one. -/
def attributeListInside (start : Span) : Parser AttributeList := do
  if isTarget (← get) then
    let name ← nameToken
    let _ ← advance
    attributeListEnd start (some name)
  else attributeListEnd start none

theorem again_attributeList {list : AttributeList} (h : attributeList s = .ok list t)
    (clean : t.errors = []) :
    Again attributeList s t ∧ t.unread.length < s.unread.length := by
  have hlist : attributeList = expect .leftBracket >>= fun opening => attributeListInside opening.span := by
    unfold attributeList attributeListInside
    refine congrArg (expect .leftBracket >>= ·) (funext fun opening => ?_)
    refine congrArg (MonadState.get >>= ·) (funext fun s => ?_)
    split <;> rfl
  have hisTarget : ∀ start (s : ParserState), attributeListInside start s = if isTarget s then
      attributeListEnd start (some ⟨s.current.name, s.current.span⟩) ((s.pass 1).pass 1) else
        attributeListEnd start none s := fun start s => by
    change (if isTarget s = true then _ else _ : Parser AttributeList) s = _
    split <;> rfl
  rw [hlist] at h ⊢
  obtain ⟨opening, v, hopen, h⟩ := exists_of_bind h
  obtain ⟨hopening, rfl⟩ := check_of_expect hopen
  have hpass := ParserState.pass_lt_of_check (show TokenKind.leftBracket ≠ .endOfFile by decide) hopening
  rw [hisTarget] at h
  suffices hinside : (∀ start, Again (attributeListInside start) (s.pass 1) t) ∧
      t.unread.length < (s.pass 1).unread.length from
    ⟨.expect hopening fun token => hinside.1 token.span, by omega⟩
  generalize s.pass 1 = s at h
  have hsame : ∀ {s' : ParserState}, s'.current = s.current → s'.ahead 1 = s.ahead 1 →
      isTarget s' = isTarget s :=
    fun hcurrent hahead => by rw [isTarget, isTarget, hcurrent, hahead]
  by_cases htarget : isTarget s = true
  · rw [if_pos htarget] at h
    obtain ⟨hrun, hshort⟩ := again_attributeListEnd h clean
    obtain ⟨hname, hcolon⟩ := Bool.and_eq_true_iff.1 htarget
    have hmore : s.atEnd = false := by
      simp only [Bool.or_eq_true, decide_eq_true_eq] at hname
      rcases hname with (hkind | hkind) | hkind <;>
        exact ParserState.atEnd_of_check (by rw [hkind]; decide) (decide_eq_true rfl)
    have hmore' : (s.pass 1).atEnd = false := by
      rw [decide_eq_true_eq, ← current_pass] at hcolon
      exact ParserState.atEnd_of_check (by rw [hcolon]; decide) (decide_eq_true rfl)
    have hless : ((s.pass 1).pass 1).unread.length ≤ s.unread.length := by
      rw [ParserState.unread_pass, ParserState.unread_pass, List.length_drop, List.length_drop]
      omega
    refine ⟨fun start => ?_, by omega⟩
    refine .congr_ahead (.step
      (.step (hrun start (some ⟨s.current.name, s.current.span⟩)) hmore' fun _ _ => rfl) hmore
      fun _ _ => rfl) (by omega) fun s' hcurrent hahead => ?_
    rw [hisTarget, if_pos (by rw [hsame hcurrent hahead, htarget]), hcurrent]
  · rw [if_neg htarget] at h
    obtain ⟨hrun, hshort⟩ := again_attributeListEnd h clean
    refine ⟨fun start => .congr_ahead (hrun start none) hshort fun s' hcurrent hahead => ?_, hshort⟩
    rw [hisTarget, if_neg (by rwa [hsame hcurrent hahead])]

/-! ### Heads -/

/-- Items that a test allows are read one after another. -/
theorem many_whenever {test : Parser Bool} {item : Parser α} (loops : Loops (whenever test item)) :
    many (whenever test item) = (do
      if ← test then
        let a ← item
        let more ← many (whenever test item)
        return a :: more
      else return []) := by
  refine loops.eq.trans ?_
  nth_rewrite 1 [whenever]
  rw [bind_assoc]
  refine congrArg (test >>= ·) (funext fun found => ?_)
  cases found
  · rfl
  · exact bind_map_left ..

theorem keeps_errors_attributeLists : Keeps (fun s => s.errors ≠ []) attributeLists :=
  .keeps_many (Yields.whenever (.check _) invariant_errors.toInvariant.body.attributeList).keeps

/-- The attributes of a declaration are read again before what is not an attribute. -/
theorem again_attributeLists {lists : List AttributeList} (h : attributeLists s = .ok lists t)
    (clean : t.errors = []) :
    Again attributeLists s t := by
  have heq : attributeLists = (do
      if ← check .leftBracket then
        let a ← attributeList
        let more ← attributeLists
        return a :: more
      else return []) := many_whenever loopsAdvance.attributeLists
  induction hlength : s.unread.length using Nat.strongRecOn generalizing s lists with
  | _ n ih =>
      refine .congr (.check ?_) fun s' _ _ => congrFun heq s'
      rw [congrFun heq s] at h
      change (if s.check .leftBracket = true then _ else _ : Parser (List AttributeList)) s = _ at h
      split at h
      · rename_i hopening
        obtain ⟨a, v, ha, h⟩ := exists_of_bind h
        obtain ⟨more, w, hmore, h⟩ := exists_of_bind h
        cases h
        have hclean := errors_eq_nil_of_keeps keeps_errors_attributeLists hmore clean
        obtain ⟨hagain, hshort⟩ := again_attributeList ha hclean
        rw [hopening]
        exact hagain.bind (fun a => (ih _ (by omega) hmore rfl).bind (fun _ => .pure) more) a
      · rename_i hnone
        cases h
        rw [Bool.eq_false_iff.2 hnone]
        exact .pure

/-- Modifiers are passed again before a name that is none of the contextual ones. -/
theorem again_modifierTokens {tokens : List Token}
    (h : many (whenever (return isModifier (← get)) advance) s = .ok tokens t)
    (hkind : t.current.kind = .identifier) (hword : t.current.lexeme ∉ contextualModifiers) :
    Again (many (whenever (return isModifier (← get)) advance)) s t := by
  have hround := many_whenever loopsAdvance.modifiers
  induction hlength : s.unread.length using Nat.strongRecOn generalizing s tokens with
  | _ n ih =>
      rw [congrFun hround s] at h
      change (if isModifier s = true then _ else _ : Parser (List Token)) s = _ at h
      split at h
      · rename_i hmodifier
        obtain ⟨token, w, htoken, hbehind⟩ := exists_of_bind h
        obtain ⟨more, x, hmore, hrest⟩ := exists_of_bind hbehind
        cases hrest
        cases htoken
        have hmoving : s.atEnd = false := by
          refine Bool.eq_false_iff.2 fun hend => ?_
          have hcurrent : s.current.kind = .endOfFile := by
            rw [ParserState.atEnd_iff] at hend
            rw [ParserState.current, ParserState.ahead, hend]
            rfl
          rw [isModifier, hcurrent] at hmodifier
          cases hmodifier
        obtain ⟨y, rest, hunread, -⟩ := ParserState.exists_unread hmoving
        have hshort : (s.pass 1).unread.length < s.unread.length := by
          rw [unread_pass_one hunread, hunread]
          exact Nat.lt_succ_self _
        have hforward : t.unread.length ≤ (s.pass 1).unread.length :=
          (Forward.length_le (.many (.whenever (.bind .get fun _ => .pure) .advance)) (s.pass 1)).of_ok hmore
        have hrest :
            Again (do return s.current :: (← many (whenever (return isModifier (← get)) advance)))
            (s.pass 1) t :=
          (ih _ (hlength ▸ hshort) hmore rfl).bind (fun _ => .pure) more
        refine .congr_ahead (.step hrest hmoving fun _ _ => rfl) (by omega) fun s' hcurrent hahead => ?_
        rw [congrFun hround s']
        have hmodifier' : isModifier s' = true := by rw [isModifier, hcurrent, hahead]; exact hmodifier
        change (if isModifier s' = true then _ else _ : Parser (List Token)) s' = _
        rw [if_pos hmodifier', ← hcurrent]
        rfl
      · cases h
        refine .congr (p := Pure.pure []) .pure fun s' hcurrent _ => ?_
        rw [congrFun hround s']
        have hmodifier' : ¬isModifier s' = true := by
          rw [isModifier, hcurrent, hkind]
          simp only [Bool.and_eq_true, List.contains_iff_mem]
          exact fun h => hword h.1
        change (if isModifier s' = true then _ else _ : Parser (List Token)) s' = _
        rw [if_neg hmodifier']

/-- The modifiers of a declaration are read again before a name that is none of the contextual ones. -/
theorem again_modifiers {m : Modifiers} (h : modifiers s = .ok m t) (hkind : t.current.kind = .identifier)
    (hword : t.current.lexeme ∉ contextualModifiers) : Again modifiers s t := by
  obtain ⟨tokens, v, htokens, h⟩ := exists_of_bind h
  cases h
  exact (again_modifierTokens htokens hkind hword).bind (fun _ => .pure) tokens

/-- The attributes and modifiers before a name are read again before this. -/
theorem again_memberHead {head : MemberHead} (h : memberHead s = .ok head t) (clean : t.errors = [])
    (hkind : t.current.kind = .identifier) (hword : t.current.lexeme ∉ contextualModifiers) :
    Again memberHead s t := by
  obtain ⟨lists, v, hlists, h⟩ := exists_of_bind (p := attributeLists) h
  obtain ⟨m, w, hmodifiers, h⟩ := exists_of_bind (p := modifiers) h
  cases h
  have hclean : v.errors = [] :=
    errors_eq_nil_of_keeps invariant_errors.toInvariant.body.modifiers hmodifiers clean
  exact .peek fun token => (again_attributeLists hlists hclean).bind
    (fun _ => (again_modifiers hmodifiers hkind hword).bind (fun _ => .pure) m) lists

end Graft.Parser
