/-
Module: Graft.Proofs.Parser.RepeatedDirectives
Purpose: A using directive is read again wherever its tokens stand.
Main exports: Parser.again_type, Parser.UsingTokens, Parser.exists_usingTokens

A directive goes on to its semicolon: what it is for is told from the two tokens behind the keyword, and its
target is read again since types are.
-/
import Graft.Proofs.Parser.RepeatedHeads

namespace Graft.Parser

variable {s t v : ParserState}

theorem again_type {type : TypeSyntax} (h : Parser.type s = .ok type t)
    (hnext : t.current.kind ∉ typeGoesOn) :
    Again Parser.type s t := by
  intro x r hunread
  obtain ⟨u, hu, phrase⟩ := (takes_type s).of_ok h
  rw [hunread] at hu
  obtain ⟨_, hbegins⟩ := hasTree phrase
  refine ⟨u, hu, fun s' r' hunread' clean => ?_⟩
  have hbehind := unread_pass hunread'
  obtain ⟨type', hrun, -⟩ := hbegins.reads s' _ hunread' (by
    rwa [current_of_unread hbehind, ← current_of_unread hunread])
  exact ⟨type', _, hrun, hbehind, clean⟩

/-- What a directive is for, with its target. -/
def aimedType : Parser (UsingKind × TypeSyntax) := do
  let kind ← usingKind
  let target ← type
  return (kind, target)

/-- The directive is for static members. -/
def isStaticUsing (s : ParserState) : Bool := s.current.kind = .modifier && s.current.lexeme = "static"

/-- The directive gives a name to its target. -/
def isAliasUsing (s : ParserState) : Bool := s.check .identifier && (s.ahead 1).kind = .equal

/-- The target of a directive, once it is known what this is for. -/
def targetOf (kind : UsingKind) : Parser (UsingKind × TypeSyntax) := do
  let target ← type
  return (kind, target)

theorem aimedType_eq (s : ParserState) : aimedType s =
    if isStaticUsing s then targetOf .staticImport (s.pass 1)
    else if isAliasUsing s then targetOf (.aliasImport ⟨s.current.name, s.current.span⟩) ((s.pass 1).pass 1)
    else targetOf .namespaceImport s := by
  have hkind : usingKind s = if isStaticUsing s then .ok .staticImport (s.pass 1)
      else if isAliasUsing s then .ok (.aliasImport ⟨s.current.name, s.current.span⟩) ((s.pass 1).pass 1)
      else .ok .namespaceImport s := by
    change (if isStaticUsing s = true then _ else if isAliasUsing s = true then _ else
      _ : Parser UsingKind) s = _
    split
    · rfl
    split
    · rename_i halias
      have hidentifier : s.current.kind = .identifier := kind_of_check (Bool.and_eq_true_iff.1 halias).1
      exact bind_eq (ident_eq hidentifier) _
    · rfl
  by_cases hstatic : isStaticUsing s = true
  · rw [if_pos hstatic] at hkind ⊢
    exact bind_eq hkind _
  · rw [if_neg hstatic] at hkind ⊢
    by_cases halias : isAliasUsing s = true
    · rw [if_pos halias] at hkind ⊢
      exact bind_eq hkind _
    · rw [if_neg halias] at hkind ⊢
      exact bind_eq hkind _

/-- The first token of a type. -/
theorem Begins.starts {type : TypeSyntax} {u : List Token} (h : Begins type u) :
    ∃ a rest, u = a :: rest ∧ a.kind ∈ typeStarts := by
  let s : ParserState := ⟨⟨0⟩, u, ⟨0, 1, 1⟩, none, [], false, 0⟩
  have hend : (s.pass u.length).current.kind = .endOfFile := by
    rw [ParserState.current, ParserState.ahead, unread_pass (s := s) (b := []) (List.append_nil _).symm]
    rfl
  have hstart := (h s [] (List.append_nil _).symm (by rw [hend]; decide)).1
  cases u with
  | nil => exact absurd hstart (by decide)
  | cons a rest => exact ⟨a, rest, rfl, hstart⟩

/-- The target of a directive is read again before a semicolon. -/
theorem again_aimedType {target : UsingKind × TypeSyntax} (h : aimedType s = .ok target t)
    (hnext : t.current.kind ∉ typeGoesOn) : Again aimedType s t := by
  have htarget : ∀ {s : ParserState} {kind : UsingKind}, targetOf kind s = .ok target t →
      (∀ kind, Again (targetOf kind) s t) ∧ t.unread.length < s.unread.length := by
    intro s kind hrun
    obtain ⟨type, w, htype, hrun⟩ := exists_of_bind hrun
    cases hrun
    obtain ⟨u, hu, phrase⟩ := (takes_type s).of_ok htype
    obtain ⟨_, hbegins⟩ := hasTree phrase
    refine ⟨fun kind => (again_type htype hnext).bind (fun _ => .pure) type, ?_⟩
    obtain ⟨a, rest, rfl, -⟩ := hbegins.starts
    have hpos := List.length_pos_of_ne_nil (List.cons_ne_nil a rest)
    rw [hu, List.length_append]
    omega
  have hsame : ∀ {s' : ParserState}, s'.current = s.current → s'.ahead 1 = s.ahead 1 →
      isStaticUsing s' = isStaticUsing s ∧ isAliasUsing s' = isAliasUsing s := fun hcurrent hahead => by
    rw [isStaticUsing, isStaticUsing, isAliasUsing, isAliasUsing, ParserState.check, ParserState.check,
      hcurrent, hahead]
    exact ⟨rfl, rfl⟩
  have hpass : ∀ n, (s.pass n).unread.length ≤ s.unread.length := fun n => by
    rw [ParserState.unread_pass, List.length_drop]
    omega
  rw [aimedType_eq] at h
  split at h
  · rename_i hstatic
    obtain ⟨hrun, hshort⟩ := htarget h
    have hkind : s.current.kind = .modifier := of_decide_eq_true (Bool.and_eq_true_iff.1 hstatic).1
    refine .congr_ahead (.step (hrun .staticImport)
      (ParserState.atEnd_of_check (by rw [hkind]; decide) (decide_eq_true rfl)) fun _ _ => rfl)
        (hshort.trans_le (hpass 1)) fun s' hcurrent hahead => ?_
    rw [aimedType_eq, (hsame hcurrent hahead).1, if_pos hstatic]
  · rename_i hstatic
    split at h
    · rename_i halias
      obtain ⟨hrun, hshort⟩ := htarget h
      rw [ParserState.pass_pass] at hshort
      obtain ⟨hname, hequal⟩ := Bool.and_eq_true_iff.1 halias
      have hmore : (s.pass 1).atEnd = false := by
        rw [decide_eq_true_eq, ← current_pass] at hequal
        exact ParserState.atEnd_of_check (by rw [hequal]; decide) (decide_eq_true rfl)
      refine .congr_ahead (.step
        (.step (hrun (.aliasImport ⟨s.current.name, s.current.span⟩)) hmore fun _ _ => rfl)
        (ParserState.atEnd_of_check (by decide) hname) fun _ _ => rfl) (hshort.trans_le (hpass (1 + 1)))
          fun s' hcurrent hahead => ?_
      rw [aimedType_eq, (hsame hcurrent hahead).1, if_neg hstatic, (hsame hcurrent hahead).2, if_pos halias,
        hcurrent]
    · rename_i halias
      obtain ⟨hrun, hshort⟩ := htarget h
      refine .congr_ahead (hrun .namespaceImport) hshort fun s' hcurrent hahead => ?_
      rw [aimedType_eq, (hsame hcurrent hahead).1, if_neg hstatic, (hsame hcurrent hahead).2, if_neg halias]

/-- A directive that starts with its keyword is not one for the whole program. -/
theorem usingDirective_eq (hstart : s.current.kind = .usingKeyword) : usingDirective s = (do
    let target ← aimedType
    let _ ← expect .semicolon
    return ⟨target.1, target.2, false, ← spanFrom s.current.span⟩ : Parser UsingDirective) (s.pass 1) := by
  have hword : eatWord? "global" s = .ok none s := by
    change (if s.checkWord "global" = true then _ else _ : Parser (Option Token)) s = _
    rw [ParserState.checkWord, hstart]
    rfl
  have hexpect := expect_eq (s := s) (show s.check .usingKeyword = true from decide_eq_true hstart)
  refine (bind_eq hword _).trans ((bind_eq hexpect _).trans ?_)
  unfold aimedType
  simp only [bind_assoc, pure_bind]
  rfl

/-- The tokens of a directive that is read wherever it stands, and is not one for the whole program. -/
def UsingTokens (u : List Token) : Prop :=
  ∃ a w, u = a :: w ∧ a.kind = .usingKeyword ∧ Repeats (fun d => d.isGlobal = false) usingDirective u

/-- Tokens that differ in their places only are read alike. -/
theorem UsingTokens.of_marks {u u' : List Token} (h : UsingTokens u)
    (marks : u'.map Token.mark = u.map Token.mark) :
    UsingTokens u' := by
  obtain ⟨a, w, rfl, ha, hrepeats⟩ := h
  obtain ⟨a', w', rfl, hmark, -⟩ := List.map_eq_cons_iff.1 marks
  refine ⟨a', w', rfl, (Token.kind_eq_of_mark hmark).trans ha, ?_⟩
  have forward : Forward usingDirective := fun tokens => (ParserState.invariant_suffix tokens).usingDirective
  refine hrepeats.of_marks Agrees.usingDirective forward marks
    fun d d' (hsame : d.unplaced = d'.unplaced) hd => ?_
  have hglobal : d.unplaced.isGlobal = d'.unplaced.isGlobal := congrArg UsingDirective.isGlobal hsame
  exact hglobal.symm.trans hd

/-- A directive that is read without an error, and is not one for the whole program, is read again
wherever its tokens come. -/
theorem exists_usingTokens {d : UsingDirective} (hstart : s.current.kind = .usingKeyword)
    (h : usingDirective s = .ok d t) : ∃ u, s.unread = u ++ t.unread ∧ UsingTokens u := by
  obtain ⟨a, hunread, -, ha⟩ := ParserState.exists_of_check (decide_eq_true hstart)
  rw [usingDirective_eq hstart] at h
  obtain ⟨target, v, htarget, h⟩ := exists_of_bind h
  obtain ⟨_, w, hend, h⟩ := exists_of_bind (p := expect .semicolon) h
  cases h
  obtain ⟨hsemicolon, rfl⟩ := check_of_expect hend
  obtain ⟨y, hbehind, -, hy⟩ := ParserState.exists_of_check hsemicolon
  obtain ⟨u, hu, hrepeats⟩ := again_aimedType htarget (by rw [kind_of_check hsemicolon]; decide) y _ hbehind
  refine ⟨a :: (u ++ [y]), by rw [hunread, hu]; simp, a, u ++ [y], rfl, ha, fun s' r hunread' clean => ?_⟩
  have hstart' : s'.current.kind = .usingKeyword := (kind_current hunread').trans ha
  obtain ⟨target', v', htarget', hv', clean'⟩ := hrepeats (s'.pass 1) r
    (by rw [unread_cons hunread', List.append_assoc]; rfl) clean
  have hsemicolon' : v'.check .semicolon = true :=
    decide_eq_true (by rw [current_of_unread hv', hy])
  unfold Outcome
  rw [usingDirective_eq hstart', bind_eq htarget', bind_eq (expect_eq hsemicolon')]
  exact ⟨unread_pass_one hv', clean', rfl⟩

end Graft.Parser
