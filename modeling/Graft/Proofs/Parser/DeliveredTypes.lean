/-
Module: Graft.Proofs.Parser.DeliveredTypes
Purpose: Declarations of types are read from the tokens that they are written with.
Main exports: Parser.AreMembers, Parser.IsMember, Parser.areMembers, Parser.DeclTokens,
  Parser.DeclTokens.isMember

A declaration is read from its modifiers, the words that say what it declares, its name, its type parameters
and the members between its braces.  What stands between the braces may again be one declaration, so that
declarations are read that are nested in one another.
-/
import Graft.Proofs.Parser.DeliveredMembers

namespace Graft.Parser

variable {all u v w : List Token} {i j k : Nat} {t : Token} {kind : TypeKind} {name : String}
  {params : List String}

/-! ### What a declaration declares -/

/-- The tokens of the words that introduce a declaration. -/
inductive KindTokens : TypeKind → List Token → Prop where
  | classKind {t : Token} (h : t.kind = .classKeyword) : KindTokens .classKind [t]
  | structKind {t : Token} (h : t.kind = .structKeyword) : KindTokens .structKind [t]
  | interfaceKind {t : Token} (h : t.kind = .interfaceKeyword) : KindTokens .interfaceKind [t]
  | recordKind {t : Token} (h : t.kind = .identifier) (word : t.lexeme = "record") :
      KindTokens .recordKind [t]
  | recordStructKind {t next : Token} (h : t.kind = .identifier) (word : t.lexeme = "record")
      (hnext : next.kind = .structKeyword) : KindTokens .recordStructKind [t, next]

namespace KindTokens

/-- The words that introduce a declaration are recognized behind its modifiers. -/
theorem starts (h : KindTokens kind u) (hu : all.drop i = u ++ v)
    (next : nextKind all (i + u.length) = .identifier) :
    followsModifier (nextKind all i) = true ∧
      ∀ s, s.Stands all i → isModifier s = false ∧ isTypeKeyword s = true := by
  have hcurrent : ∀ {t w} {s : ParserState}, all.drop i = t :: w → s.Stands all i → s.current = t ∧
      (s.ahead 1).kind = nextKind all (i + 1) := fun h hs =>
    ⟨current_of_stands hs (getElem?_of_drop h), kind_ahead_of_stands hs 1⟩
  cases h with
  | classKind h | structKind h | interfaceKind h =>
      refine ⟨by rw [nextKind_of_append hu, h]; rfl, fun s hs => ?_⟩
      rw [isModifier, isTypeKeyword, (hcurrent hu hs).1, h]
      exact ⟨rfl, rfl⟩
  | recordKind h word =>
      refine ⟨by rw [nextKind_of_append hu, h]; rfl, fun s hs => ?_⟩
      change nextKind all (i + 1) = _ at next
      rw [isModifier, isTypeKeyword, (hcurrent hu hs).1, (hcurrent hu hs).2, h, word, next]
      decide
  | recordStructKind h word hnext =>
      refine ⟨by rw [nextKind_of_append hu, h]; rfl, fun s hs => ?_⟩
      rw [isModifier, isTypeKeyword, (hcurrent hu hs).1, (hcurrent hu hs).2, h, word,
        nextKind_of_drop (drop_of_cons hu), hnext]
      decide

/-- What a declaration declares is told from its words. -/
theorem delivers (h : KindTokens kind u) (hu : all.drop i = u ++ v)
    (next : nextKind all (i + u.length) = .identifier) :
    Delivers all i (i + u.length) (· = kind) typeKind := by
  cases h with
  | classKind h | structKind h | interfaceKind h =>
      refine .advance hu ?_
      rw [h]
      exact .pure rfl
  | recordKind h _ =>
      change nextKind all (i + 1) = _ at next
      refine .advance hu ?_
      rw [h]
      refine .notEaten (by rw [next]; decide) ?_
      exact .notEaten (by rw [next]; decide) (.pure rfl)
  | recordStructKind h _ hnext =>
      refine .advance hu ?_
      rw [h]
      exact .eat (drop_of_cons hu) hnext (.pure rfl)

end KindTokens

/-! ### Type parameters -/

/-- A parameter is its name. -/
theorem consumes_typeParam (h : t.kind = .identifier) :
    Consumes [] (fun param => t.name = param.name) typeParam [t] := by
  intro s v hunread _
  have hkind : s.current.kind = .identifier := (kind_current hunread).trans h
  have hident := ident_eq hkind
  rw [current_of_unread hunread] at hident
  have hnone : many (whenever (check .leftBracket) skipGroup) s = .ok [] s := by
    refine many_eq_nil ?_
    change (if s.check .leftBracket = true then _ else _ : Parser (Option Unit)) s = _
    rw [check_of_kind hkind]
    rfl
  refine exists_of_outcome <| .after hnone <| .peek <| .ite (fun hkeyword => ?_) fun _ =>
    .of_eq hident ⟨rfl, rfl⟩
  rw [hkind] at hkeyword
  simp at hkeyword

/-- The tokens of the type parameters of a declaration. -/
inductive ParamTokens : List String → List Token → Prop where
  | none : ParamTokens [] []
  | some {names : List String} {less greater : Token} {u : List Token} (hless : less.kind = .less)
      (listed : Listed .comma (fun name u => ∃ t, u = [t] ∧ t.kind = .identifier ∧ t.name = name) names u)
      (hgreater : greater.kind = .greater) : ParamTokens names (less :: (u ++ [greater]))

theorem ParamTokens.delivers (h : ParamTokens params u) (hu : all.drop i = u ++ v)
    (next : nextKind all (i + u.length) ≠ .less) :
    Delivers all i (i + u.length) (fun list => list.map (·.name) = params) typeParams := by
  cases h with
  | none => exact .notEaten next (.pure rfl)
  | @some _ less greater u hless listed hgreater =>
      have hinside : all.drop (i + 1) = u ++ greater :: v := by
        rw [List.cons_append, List.append_assoc] at hu
        exact drop_of_cons hu
      have hlength : i + (less :: (u ++ [greater])).length = i + 1 + u.length + 1 := by simp; omega
      have hbehind := drop_of_append hinside
      have hlist : Consumes [.comma] (List.Forall₂ (fun name (param : Ident) => name = param.name) params)
          (separated typeParam) u := by
        refine listed.consumes (fun tokens => ?_) ?_ (show _ ∉ [] by decide)
        · exact (ParserState.invariant_suffix tokens).body.typeParam.keeps
        · rintro name u ⟨t, rfl, hkind, rfl⟩
          exact consumes_typeParam hkind
      rw [hlength]
      refine .eat hu hless ?_
      refine (Delivers.of_consumes hlist hinside (by rw [nextKind_of_drop hbehind, hgreater]; decide)).bind
        fun list hsame => .expect hbehind hgreater (.pure ?_)
      have hnames := List.forall₂_map_right_iff.2 hsame
      rw [List.forall₂_eq_eq_eq] at hnames
      exact hnames.symm

/-! ### Members -/

/-- Wherever these tokens stand between the braces of a declaration, they are read as members with `Q`. -/
def AreMembers (Q : List Token → List MemberDecl → Prop) (u : List Token) : Prop :=
  ∀ all i closing v typeName, Token.InOrder all → all.drop i = u ++ closing :: v →
    closing.kind = .rightBrace → Delivers all i (i + u.length) (Q all) (typeBody typeDecl typeName)

/-- What may come behind a member. -/
def behindMember : List TokenKind := [.modifier, .identifier, .rightBrace]

/-- Wherever these tokens stand before another member or a closing brace, they are
read as a member with `P`. -/
structure IsMember (P : List Token → MemberDecl → Prop) (u : List Token) : Prop where
  starts : ∃ t rest, u = t :: rest ∧ t.kind ∈ [.modifier, .identifier]
  delivers : ∀ all i v typeName, Token.InOrder all → all.drop i = u ++ v →
    nextKind all (i + u.length) ∈ behindMember →
    Delivers all i (i + u.length) (P all) (member typeDecl typeName)

/-- Members are read one after another. -/
theorem areMembers {σ : Type} {P : σ → List Token → MemberDecl → Prop} {list : List σ}
    {chunks : List (List Token)} (h : List.Forall₂ (fun x u => IsMember (P x) u) list chunks) :
    AreMembers (fun all members => List.Forall₂ (fun x m => P x all m) list members) chunks.flatten := by
  intro all i closing v typeName ordered hu hclosing
  have hall : DeliversAll all i (i + chunks.flatten.length)
      (fun found => ∃ members, found = members.map some ∧ List.Forall₂ (fun x m => P x all m) list members)
      (memberRound typeName) := by
    induction h generalizing i with
    | nil =>
        refine .nil (.atEnd <| .check _ ?_) ⟨[], rfl, .nil⟩
        have hkind : nextKind all i = .rightBrace := (nextKind_of_drop hu).trans hclosing
        rw [decide_eq_true hkind, Bool.or_true, if_pos rfl]
        exact .pure rfl
    | @cons x u list chunks hfirst hrest ih =>
        rw [List.flatten_cons, List.append_assoc] at hu
        rw [List.flatten_cons, List.length_append, ← Nat.add_assoc]
        have hbehind := drop_of_append hu
        obtain ⟨t, rest, hstart, hkind⟩ := hfirst.starts
        have hnext : nextKind all (i + u.length) ∈ behindMember := by
          cases hrest with
          | nil =>
              rw [nextKind_of_drop hbehind, hclosing]
              decide
          | cons hsecond _ =>
              obtain ⟨b, more, rfl, hb⟩ := hsecond.starts
              rw [List.flatten_cons, List.append_assoc] at hbehind
              rw [nextKind_of_append hbehind]
              exact (show ∀ kind ∈ [TokenKind.modifier, .identifier], kind ∈ behindMember by decide) _ hb
        have hmember := hfirst.delivers all i _ typeName ordered hu hnext
        have hfound : nextKind all i = t.kind := by
          rw [hstart] at hu
          exact nextKind_of_append hu
        have hother : nextKind all i ≠ .rightBrace ∧ nextKind all i ≠ .semicolon := by
          rw [hfound]
          exact (show ∀ kind ∈ [TokenKind.modifier, .identifier], kind ≠ .rightBrace ∧
            kind ≠ .semicolon by decide) _ hkind
        have hmore : ¬all.length ≤ i := by
          intro hle
          rw [hstart, List.drop_eq_nil_of_le hle] at hu
          cases hu
        have hround : Delivers all i (i + u.length) (fun m? => ∃ a, m? = some a ∧ ∃ m, a = some m ∧
            P x all m) (memberRound typeName) := by
          refine .atEnd <| .check _ ?_
          rw [decide_eq_false hmore, decide_eq_false hother.1, Bool.or_self, if_neg Bool.false_ne_true]
          refine .notEaten hother.2 ?_
          rw [if_neg Bool.false_ne_true]
          exact (Delivers.recovering (hmember.map fun m hm => ⟨m, rfl, hm⟩)).map fun a ha => ⟨a, rfl, ha⟩
        refine .cons hround ?_ ((ih _ hbehind).mono ?_)
        · rw [hstart, List.length_cons]
          omega
        · rintro _ ⟨members, rfl, hmembers⟩ _ ⟨m, rfl, hm⟩
          exact ⟨m :: members, rfl, .cons hm hmembers⟩
  refine hall.many.bind fun found hfound => .pure ?_
  obtain ⟨members, rfl, hmembers⟩ := hfound
  rw [List.filterMap_map, Function.id_comp, List.filterMap_some]
  exact hmembers

/-- A body with one member. -/
theorem IsMember.areMembers {P : List Token → MemberDecl → Prop} (h : IsMember P u) :
    AreMembers (fun all members => ∃ m, members = [m] ∧ P all m) u := by
  intro all i closing v typeName ordered hu hclosing
  have hone : List.Forall₂ (fun (_ : Unit) u => IsMember P u) [()] [u] := .cons h .nil
  have hbody := Parser.areMembers hone all i closing v typeName ordered (by simpa using hu) hclosing
  rw [List.flatten_singleton] at hbody
  refine hbody.mono fun members hmembers => ?_
  obtain ⟨m, rest, hm, hrest, rfl⟩ := List.forall₂_cons_left_iff.1 hmembers
  rw [List.forall₂_nil_left_iff.1 hrest]
  exact ⟨m, rfl, hm⟩

/-! ### Declarations -/

/-- The tokens of a declaration of a part of a type, with other ones between its braces. -/
structure DeclTokens (kind : TypeKind) (name : String) (params : List String) (inner u : List Token) :
    Prop where
  parts : ∃ words ofKind ident ofParams opening closing,
    u = words ++ (ofKind ++ ident :: (ofParams ++ opening :: (inner ++ [closing]))) ∧
    AreModifiers words ∧ words ≠ [] ∧ (modifiersOf words).isPartial = true ∧ KindTokens kind ofKind ∧
    ident.kind = .identifier ∧ ident.name = name ∧ ParamTokens params ofParams ∧ opening.kind = .leftBrace ∧
    closing.kind = .rightBrace
  members : kind ≠ .enumKind

/-- The declaration is of a part of a type and has no attributes. -/
structure DeclaresPart (kind : TypeKind) (name : String) (params : List String) (d : TypeDecl) : Prop where
  attributes : d.attributes = []
  part : d.modifiers.isPartial = true
  kind : d.kind = kind
  name : d.name.name = name
  params : d.paramNames = params

/-- No bases are named before a brace. -/
theorem delivers_skipBases (h : nextKind all i = .leftBrace) :
    Delivers all i i (fun _ => True) skipBases := by
  refine .check _ ?_
  rw [decide_eq_false (by rw [h]; decide), if_neg Bool.false_ne_true]
  refine .check _ <| .get fun s hs => ?_
  have hword : s.checkWord "where" = false := by
    rw [ParserState.checkWord, kind_of_stands hs, h]
    rfl
  rw [decide_eq_false (by rw [h]; decide), hword, Bool.or_self, if_neg Bool.false_ne_true]
  exact .pure trivial

namespace DeclTokens

variable {inner : List Token} {Q : List Token → List MemberDecl → Prop}

/-- The body of a declaration is read from what stands between its braces. -/
theorem delivers_members (ordered : Token.InOrder all) (hkind : kind ≠ .enumKind)
    (hinner : AreMembers Q inner) {opening closing : Token} (hopening : opening.kind = .leftBrace)
    (hclosing : closing.kind = .rightBrace) (hu : all.drop i = opening :: (inner ++ closing :: v))
    (next : nextKind all (i + 1 + inner.length + 1) ≠ .semicolon) :
    Delivers all i (i + 1 + inner.length + 1) (Q all) (typeMembers typeDecl kind name) := by
  have hinside := drop_of_cons hu
  have hbehind := drop_of_append hinside
  refine .notEaten (by rw [nextKind_of_drop hu, hopening]; decide) <| .expect hu hopening ?_
  extract_lets rest
  rw [if_neg hkind]
  refine (hinner all (i + 1) closing v name ordered hinside hclosing).bind fun members hmembers => ?_
  have hclosed : Delivers all (i + 1 + inner.length) (i + 1 + inner.length + 1)
      (fun _ => True) closingBrace :=
    .eat hbehind hclosing (.pure trivial)
  exact hclosed.bind fun _ _ => .notEaten next (.pure hmembers)

/-- The declaration goes on behind its modifiers with a word that introduces it. -/
theorem delivers (ordered : Token.InOrder all) (h : DeclTokens kind name params inner u)
    (hinner : AreMembers Q inner) (hu : all.drop i = u ++ v)
    (next : nextKind all (i + u.length) ≠ .semicolon) :
    ∃ k, Delivers all i k (fun head => head.attributes = [] ∧ head.modifiers.isPartial = true) memberHead ∧
      (∀ s, s.Stands all k → isTypeKeyword s = true) ∧
      ∀ head : MemberHead, head.attributes = [] ∧ head.modifiers.isPartial = true →
        Delivers all k (i + u.length) (fun d => DeclaresPart kind name params d ∧ Q all d.members)
          (typeDecl head) := by
  obtain ⟨⟨words, ofKind, ident, ofParams, opening, closing, rfl, hwords, hsome, hpartial, hkinds,
    hident, hname, hparams, hopening, hclosing⟩, hkind⟩ := h
  simp only [List.append_assoc, List.cons_append] at hu
  have hkeyword := drop_of_append hu
  have hbehind := drop_of_append hkeyword
  have htail := drop_of_cons hbehind
  have hbody := drop_of_append htail
  have hlength : i + (words ++ (ofKind ++ ident :: (ofParams ++ opening :: (inner ++ [closing])))).length =
      i + words.length + ofKind.length + 1 + ofParams.length + 1 + inner.length + 1 := by
    simp only [List.length_cons, List.length_append, List.length_nil]
    omega
  rw [hlength] at next ⊢
  have hnextName : nextKind all (i + words.length + ofKind.length) = .identifier :=
    (nextKind_of_drop hbehind).trans hident
  have hnextBody : nextKind all (i + words.length + ofKind.length + 1 + ofParams.length) = .leftBrace :=
    (nextKind_of_drop hbody).trans hopening
  obtain ⟨hfollows, hstarts⟩ := hkinds.starts hkeyword hnextName
  refine ⟨i + words.length, ?_, fun s hs => (hstarts s hs).2, fun head hhead => ?_⟩
  · refine (delivers_memberHead hwords hu hsome hfollows fun s hs => (hstarts s hs).1).mono fun head h => ?_
    exact ⟨h.1, by rw [h.2, hpartial]⟩
  refine .congr (p := typeDeclOf typeDecl head) ?_ fun s _ => congrFun (typeDecl_recurs.eq head) s
  refine .newDeclId fun id => (hkinds.delivers hkeyword hnextName).bind fun found hfound =>
    .ident hbehind hident ?_
  refine (hparams.delivers htail (by rw [hnextBody]; decide)).bind fun list hlist => ?_
  refine (delivers_skipBases hnextBody).bind fun _ _ => ?_
  subst hfound
  refine (delivers_members ordered hkind hinner hopening hclosing hbody next).bind fun members hmembers => ?_
  exact .someSpan fun span => .pure ⟨⟨hhead.1, hhead.2, rfl, hname, hlist⟩, hmembers⟩

/-- A declaration starts with a modifier. -/
theorem starts (h : DeclTokens kind name params inner u) :
    ∃ t rest, u = t :: rest ∧
    (t.kind = .modifier ∨ t.kind = .identifier ∧ t.lexeme ∈ contextualModifiers) := by
  obtain ⟨⟨words, ofKind, ident, ofParams, opening, closing, rfl, hwords, hsome, -⟩, -⟩ := h
  obtain ⟨t, rest, rfl⟩ := List.exists_cons_of_ne_nil hsome
  exact ⟨t, _, rfl, hwords t List.mem_cons_self⟩

/-- A declaration is read as a member of another one. -/
theorem isMember (h : DeclTokens kind name params inner u) (hinner : AreMembers Q inner) :
    IsMember (fun all m => ∃ d, m = .type d ∧ DeclaresPart kind name params d ∧ Q all d.members) u := by
  refine ⟨?_, fun all i v typeName ordered hu next => ?_⟩
  · obtain ⟨t, rest, hstart, hkind⟩ := h.starts
    refine ⟨t, rest, hstart, ?_⟩
    rcases hkind with hkind | ⟨hkind, -⟩ <;> rw [hkind] <;> decide
  · obtain ⟨k, hhead, hkeyword, hdecl⟩ := h.delivers ordered hinner hu (fun heq => by
      rw [heq] at next
      exact absurd next (by decide))
    refine hhead.bind fun head hhead => .get fun s hs => ?_
    rw [if_pos (hkeyword s hs)]
    exact (hdecl head hhead).map fun d hd => ⟨d, rfl, hd⟩

/-- A declaration is read as one of a namespace. -/
theorem delivers_namespaceType (ordered : Token.InOrder all) (h : DeclTokens kind name params inner u)
    (hinner : AreMembers Q inner) (hu : all.drop i = u ++ v)
    (next : nextKind all (i + u.length) ≠ .semicolon) :
    Delivers all i (i + u.length) (fun d? => ∃ d, d? = some d ∧ DeclaresPart kind name params d ∧
      Q all d.members) namespaceType := by
  obtain ⟨k, hhead, hkeyword, hdecl⟩ := h.delivers ordered hinner hu next
  refine hhead.bind fun head hhead => .get fun s hs => ?_
  rw [if_pos (hkeyword s hs)]
  exact (hdecl head hhead).map fun d hd => ⟨d, rfl, hd⟩

end DeclTokens

end Graft.Parser
