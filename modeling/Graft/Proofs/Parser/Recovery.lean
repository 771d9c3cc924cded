/-
Module: Graft.Proofs.Parser.Recovery
Purpose: Where reading goes on when an error is reported before the first token of a source.
Main exports: Parser.globalAttributes, Parser.Clean.globalAttributes, Parser.Resumed,
  Parser.Clean.resumed_using, Parser.Clean.resumed_declaration

Recovery passes the attributes of the whole program.  Behind them it passes a using directive, or what stands
before the keyword of a declaration, and the items from there on are those of the source.
-/
import Graft.Proofs.Parser.CleanRuns
import Graft.Proofs.Parser.AgreedFiles

namespace Graft

open Token (KindAt between)
open Skip (Passed startsDeclaration resumeLength)
open NamespaceBody (concat)

namespace Parser

variable {α : Type} {source : SourceId} {all : List Token} {i j k : Nat} {s t u : ParserState}
  {parts : List NamespaceBody}

/-- A clean state is like the one before a text of the tokens to come. -/
theorem Clean.alike (h : Clean source all i s) {text : String}
    (errors : (TokenStream.ofText text).errors = [])
    (tokens : (TokenStream.ofText text).tokens.map Token.mark = (all.drop i).map Token.mark) :
    s.Alike (.ofText source text) where
  source := h.source
  unread := by rw [h.stands.unread, ← tokens]; rfl
  errors := by rw [h.errors, ParserState.ofText, errors]; rfl
  panicking := Bool.eq_false_iff.2 fun hpanicking => h.stands.tidy hpanicking h.errors
  nextDecl := h.nextDecl

/-- A text of the tokens to come is read as the items to come. -/
theorem Clean.ofText_eq (h : Clean source all i s) (items : Items (namespaceRound false) s parts u)
    (clean : u.errors = []) {text : String} (errors : (TokenStream.ofText text).errors = [])
    (tokens : (TokenStream.ofText text).tokens.map Token.mark = (all.drop i).map Token.mark) :
    (SourceFile.ofText source text).2 = [] ∧
      (SourceFile.ofText source text).1.usings.map (·.unplaced) = (concat parts).usings.map (·.unplaced) ∧
      (SourceFile.ofText source text).1.members.map (·.unplaced) =
        (concat parts).members.map (·.unplaced) := by
  have hrun := Agrees.sourceFile _ _ (h.alike errors tokens)
  rw [items.sourceFile_eq] at hrun
  unfold SourceFile.ofText EStateM.run
  cases hresult : sourceFile (.ofText source text) with
  | ok file v =>
      rw [hresult] at hrun
      cases hrun with
      | ok alike related =>
          have herrors := alike.errors
          rw [clean] at herrors
          obtain ⟨-, husings, -, hmembers, -⟩ := SourceFile.mk.inj related
          exact ⟨List.map_eq_nil_iff.1 herrors.symm, husings.symm, hmembers.symm⟩
  | error e v =>
      rw [hresult] at hrun
      cases hrun

/-! ### Global attributes -/

/-- An attribute list of the whole program, if one comes next. -/
def globalAttribute? : Parser (Option AttributeList) :=
  whenever (return isGlobalAttribute (← get)) attributeList

/-- The attribute lists of the whole program up to something else. -/
def globalAttributes : Parser (List AttributeList) := many globalAttribute?

theorem not_isUsing_of_isGlobalAttribute (h : isGlobalAttribute s = true) : isUsing s = false := by
  have hbracket : s.check .leftBracket = true := (Bool.and_eq_true_iff.1 (Bool.and_eq_true_iff.1 h).1).1
  have hkind := kind_of_check hbracket
  simp [isUsing, ParserState.check, ParserState.checkWord, hkind]

theorem not_atEnd_of_isGlobalAttribute (h : isGlobalAttribute s = true) : s.atEnd = false :=
  ParserState.atEnd_of_check (by decide) (Bool.and_eq_true_iff.1 (Bool.and_eq_true_iff.1 h).1).1

/-- What stands at the start of a source up to something else than attributes of the whole program. -/
structure Behind (source : SourceId) (all : List Token) (i : Nat) (s : ParserState)
    (parts : List NamespaceBody) (u : ParserState) (lists : List AttributeList) (j : Nat) (t : ParserState)
    (rest : List NamespaceBody) : Prop where
  reads : Items globalAttribute? s lists t
  le : i ≤ j
  clean : Clean source all j t
  passed : Passed (between all i j)
  other : isGlobalAttribute t = false
  items : Items (namespaceRound false) t rest u
  usings : (concat parts).usings = (concat rest).usings
  members : (concat parts).members = (concat rest).members

theorem globalAttribute?_eq (s : ParserState) : globalAttribute? s =
    (if isGlobalAttribute s then some <$> attributeList else Pure.pure none : Parser (Option AttributeList))
    s := rfl

/-- Where no such list comes, none is passed. -/
theorem Behind.none (h : Clean source all i s) (items : Items (namespaceRound false) s parts u)
    (other : isGlobalAttribute s = false) : Behind source all i s parts u [] i s parts where
  reads := .done (by rw [globalAttribute?_eq, other]; rfl)
  le := Nat.le_refl i
  clean := h
  passed := by rw [Token.between_self]; exact .nil
  other := other
  items := items
  usings := rfl
  members := rfl

theorem Clean.globalAttributes (h : Clean source all i s) (items : Items (namespaceRound false) s parts u)
    (clean : u.errors = []) : ∃ lists j t rest, Behind source all i s parts u lists j t rest := by
  induction items generalizing i with
  | @done s t last =>
      refine ⟨_, _, _, _, .none h (.done last) (Bool.eq_false_iff.2 fun hglobal => ?_)⟩
      exact absurd (atEnd_of_round last)
        (by rw [not_atEnd_of_isGlobalAttribute hglobal]; exact Bool.false_ne_true)
  | @more s t u part rest first shorter later ih =>
      cases hglobal : isGlobalAttribute s with
      | false => exact ⟨_, _, _, _, .none h (.more first shorter later) hglobal⟩
      | true =>
          have herrors := later.errors_eq_nil clean
          have hitem := namespaceItem_of_round h.stands first herrors
          change (if isUsing s then _ else if isGlobalAttribute s then _ else _ : Parser NamespaceBody) s
            = _ at hitem
          rw [not_isUsing_of_isGlobalAttribute hglobal, hglobal, if_neg Bool.false_ne_true,
            if_pos rfl] at hitem
          obtain ⟨list, v, hlist, hpart⟩ := exists_of_bind hitem
          cases hpart
          obtain ⟨j, hij, hclean, hpassed⟩ := h.step (Skips.attributeList i)
            (invariant_unnumbered source).body.attributeList hlist herrors
          obtain ⟨lists, k, w, more, hbehind⟩ := ih hclean clean
          refine ⟨list :: lists, k, w, more, .more ?_ shorter hbehind.reads, Nat.le_trans hij hbehind.le,
            hbehind.clean, ?_, hbehind.other, hbehind.items, hbehind.usings, hbehind.members⟩
          · rw [globalAttribute?_eq, hglobal, if_pos rfl]
            exact bind_eq hlist _
          · rw [← Token.between_append hij hbehind.le]
            exact hpassed.append hbehind.passed

/-! ### Where reading goes on -/

/-- From the token number `i` on, reading goes on after an error where the items `rest` come next. -/
def Resumed (source : SourceId) (all : List Token) (i : Nat) (rest : List NamespaceBody) (u : ParserState) :
    Prop :=
  ∃ j t, i ≤ j ∧ (resumeLength true (all.drop i)).count = j - i ∧ Clean source all j t ∧
    Items (namespaceRound false) t rest u

/-- What is passed may stand before. -/
theorem Resumed.behind (h : Resumed source all k parts u) (hik : i ≤ k) (passed : Passed (between all i k)) :
    Resumed source all i parts u := by
  obtain ⟨j, t, hkj, hcount, hclean, hitems⟩ := h
  refine ⟨j, t, Nat.le_trans hik hkj, ?_, hclean, hitems⟩
  rw [← Token.between_append_drop hik, passed]
  have hlength := Token.length_between (i := i) (Nat.le_trans hkj hclean.stands.inside)
  simp only [Skip.Distance.after, hlength, hcount]
  omega

/-- Reading goes on at the end. -/
theorem Clean.resumed_end (h : Clean source all i s) (items : Items (namespaceRound false) s parts u)
    (atEnd : s.atEnd = true) : Resumed source all i parts u := by
  refine ⟨i, s, Nat.le_refl i, ?_, h, items⟩
  rw [← h.stands.unread, ParserState.atEnd_iff.1 atEnd, resumeLength, Nat.sub_self]
  rfl

/-- Reading goes on before a keyword that starts a declaration. -/
theorem Clean.resumed_start (h : Clean source all i s) (items : Items (namespaceRound false) s parts u)
    (start : startsDeclaration s.current.kind = true) : Resumed source all i parts u := by
  cases hunread : s.unread with
  | nil => exact h.resumed_end items (ParserState.atEnd_iff.2 hunread)
  | cons t rest =>
      refine ⟨i, s, Nat.le_refl i, ?_, h, items⟩
      rw [← h.stands.unread, hunread, Skip.resumeLength_start (current_of_unread hunread ▸ start),
        Nat.sub_self]
      rfl

/-- Reading goes on behind a using directive. -/
theorem Clean.resumed_using (h : Clean source all i s) (items : Items (namespaceRound false) s parts u)
    (clean : u.errors = []) (start : isUsing s = true) :
    ∃ decl rest, parts = ⟨[decl], [], []⟩ :: rest ∧ Resumed source all i rest u := by
  have hmore : s.atEnd = false := by
    rw [isUsing, Bool.or_eq_true, ParserState.checkWord, Bool.and_eq_true, Bool.and_eq_true] at start
    rcases start with h | h
    · exact ParserState.atEnd_of_check (by decide) h
    · have hword : s.check .identifier = true := h.1.1
      exact ParserState.atEnd_of_check (by decide) hword
  cases items with
  | done last => exact absurd (atEnd_of_round last) (by rw [hmore]; exact Bool.false_ne_true)
  | @more _ t _ part rest first shorter later =>
      have herrors := later.errors_eq_nil clean
      have hitem := namespaceItem_of_round h.stands first herrors
      change (if isUsing s then _ else _ : Parser NamespaceBody) s = _ at hitem
      rw [start, if_pos rfl] at hitem
      obtain ⟨decl, v, hdecl, hpart⟩ := exists_of_bind hitem
      cases hpart
      obtain ⟨j, hij, hclean, hterminated⟩ := h.step (reads_usingDirective i)
        (invariant_unnumbered source).usingDirective hdecl herrors
      refine ⟨decl, rest, rfl, j, t, hij, ?_, hclean, later⟩
      rw [← Token.between_append_drop hij, hterminated.resumeLength_eq,
        ← Token.length_between hclean.stands.inside]
      rfl

/-! ### Declarations -/

/-- The state in which a parser ends. -/
def stateAfter (p : Parser α) (s : ParserState) : ParserState :=
  match p s with
  | .ok _ t => t
  | .error _ t => t

theorem stateAfter_of_ok {p : Parser α} {a : α} (h : p s = .ok a t) : stateAfter p s = t := by
  rw [stateAfter, h]

end Parser

/-- A member of a file without the attributes and the modifiers that a type has. -/
def NamespaceMember.undecorated : NamespaceMember → NamespaceMember
  | .space decl => .space decl
  | .type decl => .type { decl with attributes := [], modifiers := .empty }

theorem NamespaceMember.unplaced_undecorated (m : NamespaceMember) :
    m.undecorated.unplaced = m.unplaced.undecorated := by
  cases m with
  | space decl => rw [undecorated, unplaced, undecorated]
  | type decl =>
      rw [undecorated, unplaced, unplaced, undecorated, TypeDecl.unplaced, TypeDecl.unplaced]
      rfl

theorem NamespaceMember.map_unplaced_modifyHead_undecorated (members : List NamespaceMember) :
    (members.modifyHead undecorated).map unplaced = (members.map unplaced).modifyHead undecorated := by
  cases members with
  | nil => rfl
  | cons m rest => exact congrArg (· :: rest.map unplaced) m.unplaced_undecorated

namespace Parser

variable {source : SourceId} {all : List Token} {i j k : Nat} {s t u : ParserState}
  {parts : List NamespaceBody}

/-- Where neither an attribute nor a modifier comes next, the head of a declaration is empty. -/
theorem stateAfter_memberHead (hattributes : s.check .leftBracket = false)
    (hmodifiers : isModifier s = false) :
    stateAfter memberHead s = s := stateAfter_of_ok (memberHead_eq hattributes hmodifiers)

theorem not_start_of_isUsing (h : isUsing s = true) :
    startsDeclaration (stateAfter memberHead s).current.kind = false := by
  simp only [isUsing, ParserState.checkWord, ParserState.check, Bool.or_eq_true, Bool.and_eq_true,
    decide_eq_true_eq] at h
  rcases h with hkind | ⟨⟨hkind, hlexeme⟩, -⟩
  · rw [stateAfter_memberHead (by simp [ParserState.check, hkind]) (by simp [isModifier, hkind]), hkind]
    rfl
  · have hword : contextualModifiers.contains s.current.lexeme = false := by
      rw [hlexeme]
      decide
    have hmodifier : isModifier s = false := by
      unfold isModifier
      rw [hkind, hword]
      rfl
    rw [stateAfter_memberHead (by simp [ParserState.check, hkind]) hmodifier, hkind]
    rfl

theorem not_start_of_rightBrace (h : s.check .rightBrace = true) :
    startsDeclaration (stateAfter memberHead s).current.kind = false := by
  have hkind := kind_of_check h
  rw [stateAfter_memberHead (by simp [ParserState.check, hkind]) (by simp [isModifier, hkind]), hkind]
  rfl

/-- A type behind attributes and modifiers: what comes behind these is read as the type without them. -/
theorem Clean.resumed_type (h : Clean source all i s) {rest : List NamespaceBody}
    (later : Items (namespaceRound false) t rest u) (clean : t.errors = []) {decl? : Option TypeDecl}
    (htype : namespaceType s = .ok decl? t)
    (start : startsDeclaration (stateAfter memberHead s).current.kind = true) :
    ∃ decl left, decl? = some decl ∧
      (NamespaceMember.type left).unplaced = (NamespaceMember.type decl).undecorated.unplaced ∧
      Resumed source all i (⟨[], [], [.type left]⟩ :: rest) u := by
  obtain ⟨head, v, hhead, hdecl⟩ := exists_of_bind htype
  rw [stateAfter_of_ok hhead] at start
  change (if isTypeKeyword v then some <$> typeDecl head else if v.check .delegateKeyword then _ else
    failAt .expectedDeclaration : Parser (Option TypeDecl)) v = _ at hdecl
  cases hkeyword : isTypeKeyword v with
  | false =>
      unfold startsDeclaration at start
      split at start <;> rename_i hkind <;> first
        | exact absurd start Bool.false_ne_true
        | rw [hkeyword, ParserState.check, hkind] at hdecl
          cases hdecl
  | true =>
      rw [hkeyword, if_pos rfl] at hdecl
      obtain ⟨decl, w, hrun, hsome⟩ := exists_of_bind (f := fun decl => Pure.pure (some decl)) hdecl
      cases hsome
      obtain ⟨j, -, hstands, -⟩ := (Skips.memberHead i s h.stands).of_ok hhead
      obtain ⟨_, _, _, herrors⟩ :=
        (Even.typeDecl head (Even.plainAt_of_isTypeKeyword hstands hkeyword) v hstands).of_ok hrun
      obtain ⟨k, hik, hclean, hpassed⟩ :=
        h.step (Skips.memberHead i) (invariant_unnumbered source).body.memberHead hhead (herrors clean).1
      have notSpace : v.check .namespaceKeyword = false := Bool.eq_false_iff.2 fun hspace => by
        simp [isTypeKeyword, kind_of_check hspace] at hkeyword
      obtain ⟨span, hleft⟩ := typeDecl_head hrun ⟨[], .empty, v.current.span⟩
      have hmore : v.atEnd = false := Bool.eq_false_iff.2 fun hend => by
        simp [ParserState.current, ParserState.ahead, ParserState.atEnd_iff.1 hend, Token.endOfFile,
          startsDeclaration] at start
      have hround := namespaceRound_of_item hmore (namespaceItem_of_typeDecl start notSpace hleft)
      have hshorter := ((namespaceRound_outcome false v).of_ok hround).2 rfl
      have hresumed := (hclean.resumed_start (.more hround hshorter later) start).behind hik hpassed
      exact ⟨decl, { decl with attributes := [], modifiers := .empty, span }, rfl, rfl, hresumed⟩

/-- Reading goes on behind the attributes and modifiers of a declaration. -/
theorem Clean.resumed_declaration (h : Clean source all i s) (items : Items (namespaceRound false) s parts u)
    (clean : u.errors = []) (other : isGlobalAttribute s = false)
    (start : startsDeclaration (stateAfter memberHead s).current.kind = true) :
    ∃ rest, Resumed source all i rest u ∧ (concat rest).usings = (concat parts).usings ∧
      (concat rest).members.map (·.unplaced) =
        ((concat parts).members.modifyHead (·.undecorated)).map (·.unplaced) := by
  cases items with
  | done last => exact ⟨[], h.resumed_end (.done last) (atEnd_of_round last), rfl, rfl⟩
  | @more _ t _ part rest first shorter later =>
      have herrors := later.errors_eq_nil clean
      have hitem := namespaceItem_of_round h.stands first herrors
      change (if isUsing s then _ else if isGlobalAttribute s then _ else
        if s.check .namespaceKeyword then _ else
        if s.check .rightBrace then _ else _ : Parser NamespaceBody) s = _ at hitem
      have husing : isUsing s = false :=
        Bool.eq_false_iff.2 fun h => by rw [not_start_of_isUsing h] at start; cases start
      have hbrace : s.check .rightBrace = false :=
        Bool.eq_false_iff.2 fun h => by rw [not_start_of_rightBrace h] at start; cases start
      rw [husing, other, hbrace, if_neg Bool.false_ne_true, if_neg Bool.false_ne_true] at hitem
      cases hspace : s.check .namespaceKeyword with
      | true =>
          rw [hspace, if_pos rfl] at hitem
          obtain ⟨decl, v, -, hpart⟩ := exists_of_bind hitem
          cases hpart
          refine ⟨_, h.resumed_start (.more first shorter later) ?_, rfl, rfl⟩
          rw [kind_of_check hspace]
          rfl
      | false =>
          rw [hspace, if_neg Bool.false_ne_true, if_neg Bool.false_ne_true] at hitem
          obtain ⟨decl?, v, hdecl, hpart⟩ := exists_of_bind hitem
          cases hpart
          obtain ⟨decl, left, rfl, hleft, hresumed⟩ := h.resumed_type later herrors hdecl start
          refine ⟨_, hresumed, rfl, ?_⟩
          change NamespaceMember.unplaced (.type left) :: _ =
            NamespaceMember.unplaced (NamespaceMember.type decl).undecorated :: _
          rw [hleft]
          rfl

end Parser

end Graft
