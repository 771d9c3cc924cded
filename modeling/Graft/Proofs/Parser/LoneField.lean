/-
Module: Graft.Proofs.Parser.LoneField
Purpose: A class whose only member is a variable with an initial value that is no constant.
Main exports: MemberDecl.LoneUnsupported, Parser.LoneVariable, Parser.LoneVariable.sourceFile_semicolon,
  Parser.LoneVariable.sourceFile_comma

An initial value that is not constant is passed up to a comma or semicolon.  If a semicolon stands there, the
value is kept.  If what stands there is a comma in a list of type arguments, what follows is read as one more
variable, and the angle bracket behind it cannot be read.
-/
import Graft.Proofs.Parser.Containment
import Graft.Proofs.Parser.Reads
import Graft.Proofs.Parser.Termination

namespace Graft

/-- The member is a field with one variable of this name, whose initial value is unsupported and reaches from
the token number `i` to the one before number `j`. -/
def MemberDecl.LoneUnsupported (all : List Token) (name : String) (i j : Nat) (m : MemberDecl) : Prop :=
  ∃ field first span, m = .field field ∧ field.declarators = [first] ∧ first.name.name = name ∧
    first.initializer? = some (.unsupported span) ∧ span.Over all i j

namespace Parser

variable {α β : Type} {s t : ParserState}

/-! ### Initial values -/

/-- A modifier starts no constant. -/
theorem additive_modifier (h : s.current.kind = .modifier) :
    Outcome (fun _ _ => False) (· = s) additive s := by
  have hminus : s.check .minus = false := by rw [ParserState.check, h]; rfl
  have hname : isNameOf s = false := by simp [isNameOf, ParserState.checkWord, h]
  have hvalue : literalValue? s.current = .ok none := by
    unfold literalValue?
    rw [h]
  have hliteral : Outcome (fun _ _ => False) (· = s) literal s := by
    refine .peek ?_
    rw [hvalue]
    exact .get <| .throw rfl
  refine .fix fun rounds => .bind (Q := fun _ _ => False) (.after (many_eq_nil (eat?_eq_none hminus)) ?_)
    fun _ _ _ h => h.elim
  refine .bind (Q := fun _ _ => False) ?_ fun _ _ _ h => h.elim
  exact .peek <| .ite (fun hkind => by rw [h] at hkind; cases hkind) fun _ => .get <|
    .ite (fun hkind => by rw [hname] at hkind; cases hkind) fun _ =>
    .ite (fun hkind => by rw [h] at hkind; cases hkind) fun _ => hliteral

/-- An expression that starts with a modifier is passed up to its end. -/
theorem expr_modifier {terminators : List TokenKind} {n : Nat} (h : s.current.kind = .modifier)
    (hlength : Skip.untilLength terminators 0 s.unread = .closed n) (hpos : 0 < n)
    (hle : n ≤ s.unread.length) :
    expr terminators s = .ok (.unsupported ((s.pass n).spanFrom s.current.span)) (s.pass n) := by
  have hrun : Outcome (fun e t => e = .unsupported ((s.pass n).spanFrom s.current.span) ∧ t = s.pass n)
      (fun _ => False) (expr terminators) s := by
    refine .get <| .bind (Q := fun a? t => a? = none ∧ t = s) (.tryCatch (F := (· = s))
      ((additive_modifier h).map fun _ _ h => h.elim) fun _ _ _ ht => .pure ⟨rfl, ht⟩) fun a? t _ ht => ?_
    obtain ⟨rfl, rfl⟩ := ht
    have hskip : (t.rewind t).skipUntil terminators = t.pass n := by
      change t.passDistance (Skip.untilLength terminators 0 t.unread) = t.pass n
      rw [hlength, ParserState.passDistance_closed]
    refine .modify <| .modify <| .get ?_
    rw [hskip]
    refine .ite (fun hsame => ?_) fun _ => .pure ⟨rfl, rfl⟩
    rw [ParserState.unread_pass, List.length_drop] at hsame
    omega
  obtain ⟨_, _, heq, rfl, rfl⟩ := hrun.exists_ok
  exact heq

/-- A variable whose initial value starts with a modifier. -/
theorem variableAfter_modifier {n : Nat} (name : Ident) (hequal : s.check .equal = true)
    (hmodifier : (s.pass 1).current.kind = .modifier)
    (hlength : Skip.untilLength [.comma, .semicolon] 0 (s.pass 1).unread = .closed n) (hpos : 0 < n)
    (hle : n ≤ (s.pass 1).unread.length) :
    variableAfter name s =
      .ok ⟨name, some (.unsupported (((s.pass 1).pass n).spanFrom (s.pass 1).current.span)),
      ((s.pass 1).pass n).spanFrom name.span⟩ ((s.pass 1).pass n) :=
  bind_eq (whenever_eat_eq hequal (expr_modifier hmodifier hlength hpos hle)) _

/-- A field whose first variable ends before a semicolon has no other one. -/
theorem field_semicolon {head : MemberHead} {type : TypeSyntax} {name : NamedType} {first : VariableDecl}
    (hfirst : variableAfter (memberName name) s = .ok first t) (hend : t.check .semicolon = true) :
    field head type name s = .ok (.field ⟨head.attributes, head.modifiers, type, [first],
      (t.pass 1).spanFrom head.start⟩) (t.pass 1) := by
  have hcomma : t.check .comma = false := by
    rw [ParserState.check, kind_of_check hend]
    rfl
  exact (bind_eq hfirst _).trans <| (bind_eq (many_eq_nil (whenever_eat_eq_none hcomma)) _).trans <|
    bind_eq (expect_eq hend) _

/-- Neither a semicolon nor an equals sign stands before a closing angle bracket. -/
def BeforeGreater (tokens : List Token) : Prop :=
  ∃ u closing rest, tokens = u ++ closing :: rest ∧ closing.kind = .greater ∧
    ∀ t ∈ u, t.kind ≠ .semicolon ∧ t.kind ≠ .equal

theorem BeforeGreater.current (h : BeforeGreater s.unread) :
    s.current.kind ≠ .semicolon ∧ s.current.kind ≠ .equal := by
  obtain ⟨u, closing, rest, hunread, hclosing, hu⟩ := h
  cases u with
  | nil =>
      rw [current_of_unread hunread, hclosing]
      decide
  | cons t u =>
      rw [current_of_unread hunread]
      exact hu t List.mem_cons_self

theorem BeforeGreater.pass (h : BeforeGreater s.unread) (hkind : s.current.kind ≠ .greater) :
    BeforeGreater (s.pass 1).unread := by
  obtain ⟨u, closing, rest, hunread, hclosing, hu⟩ := h
  cases u with
  | nil =>
      rw [current_of_unread hunread] at hkind
      exact absurd hclosing hkind
  | cons t u => exact ⟨u, closing, rest, unread_pass_one hunread, hclosing,
      fun x hx => hu x (List.mem_cons_of_mem _ hx)⟩

/-- A field whose first variable ends before a comma in a list of type arguments cannot be read. -/
theorem field_comma {head : MemberHead} {type : TypeSyntax} {name : NamedType} {first : VariableDecl}
    (hfirst : variableAfter (memberName name) s = .ok first t) (h : BeforeGreater t.unread)
    (calm : t.panicking = false) :
    Outcome (fun _ _ => False) (·.panicking = false) (field head type name) s := by
  refine .after hfirst ?_
  refine Outcome.bind (Q := fun _ u => BeforeGreater u.unread ∧ u.panicking = false) (Outcome.many
    (L := fun u => BeforeGreater u.unread ∧ u.panicking = false) (fun u hu => ?_) (fun _ hu => hu.2)
    ⟨h, calm⟩) fun more u _ hu => ?_
  · -- one more variable is a comma and a name, and has no initial value
    refine .eat (fun hcomma => ?_) fun _ => .pure ⟨fun _ => hu, nofun⟩
    have hnext := hu.1.pass (by rw [kind_of_check hcomma]; decide)
    refine .map (Q := fun _ v => BeforeGreater v.unread ∧ v.panicking = false) ?_ fun _ _ hv =>
      ⟨nofun, fun _ => hv⟩
    by_cases hname : (u.pass 1).current.kind = .identifier
    · have hbehind := hnext.pass (by rw [hname]; decide)
      refine .after (ident_eq hname) <| .after (whenever_eat_eq_none (decide_eq_false hbehind.current.2)) <|
        .spanFrom <| .pure ⟨hbehind, hu.2⟩
    · refine Outcome.bind (Q := fun _ _ => False) ?_ fun _ _ _ h => h.elim
      refine .peek <| .ite (fun _ => ?_) fun h => absurd (Decidable.not_not.1 h) hname
      exact Outcome.bind (Q := fun _ _ => False) (.peek <| .throw hu.2) fun _ _ _ h => h.elim
  · refine Outcome.bind (Q := fun _ _ => False)
      (.expect (fun hcheck => absurd (kind_of_check hcheck) hu.1.current.1)
      fun _ => hu.2) fun _ _ _ h => h.elim

/-! ### A field of a built-in type -/

/-- A built-in type before a name has no suffixes. -/
theorem type_predefined (hkind : s.current.kind = .predefinedType)
    (hname : (s.pass 1).current.kind = .identifier) :
    type s = .ok (.predefined s.current.lexeme s.current.span) (s.pass 1) := by
  have hrun : Outcome (fun type t => type = .predefined s.current.lexeme s.current.span ∧ t = s.pass 1)
      (fun _ => False) type s := by
    refine .fix fun rounds => ?_
    refine Outcome.bind (Q := fun type t => type = .predefined s.current.lexeme s.current.span ∧
      t = s.pass 1) (.peek ?_) fun _ t _ ht => ?_
    · rw [hkind]
      exact .after (p := advance) rfl <| .pure ⟨rfl, rfl⟩
    · obtain ⟨rfl, rfl⟩ := ht
      refine .after (many_eq_nil ?_) <| .pure ⟨rfl, rfl⟩
      have hsuffix : Outcome (fun suffix? t => suffix? = none ∧ t = s.pass 1) (fun _ => False)
          (typeSuffix (TypeSyntax.predefined s.current.lexeme s.current.span).span) (s.pass 1) := by
        have hother : (s.pass 1).check .question = false ∧ (s.pass 1).check .star = false ∧
            isRankSpecifier (s.pass 1) = false := by
          simp [isRankSpecifier, ParserState.check, hname]
        refine .get <| .ite (fun h => by rw [hother.1] at h; cases h) fun _ =>
          .ite (fun h => by rw [hother.2.1] at h; cases h) fun _ =>
          .ite (fun h => by rw [hother.2.2] at h; cases h) fun _ => .pure ⟨rfl, rfl⟩
      obtain ⟨_, _, heq, rfl, rfl⟩ := hsuffix.exists_ok
      exact heq
  obtain ⟨_, _, heq, rfl, rfl⟩ := hrun.exists_ok
  exact heq

/-- The name of a variable with an initial value. -/
theorem namedType_equal (hname : s.current.kind = .identifier) (hequal : (s.pass 1).current.kind = .equal) :
    Outcome (fun name t => memberName name = ⟨s.current.name, s.current.span⟩ ∧ t = s.pass 1)
      (fun _ => False) (namedType true) s := by
  have hcolon : (s.ahead 1).kind ≠ .doubleColon := by
    rw [← current_pass, hequal]
    decide
  have hsegment : typeSegment type true s = .ok ⟨⟨s.current.name, s.current.span⟩, []⟩ (s.pass 1) := by
    have hless : (s.pass 1).check .less = false := by
      rw [ParserState.check, hequal]
      rfl
    refine (bind_eq (ident_eq hname) _).trans ?_
    change (if true && (s.pass 1).check .less then _ else _ : Parser TypeSegment) (s.pass 1) = _
    rw [hless]
    rfl
  refine .peek <| .check <| .kindAhead ?_
  extract_lets rest
  have hrest : Outcome (fun name t => memberName name = ⟨s.current.name, s.current.span⟩ ∧ t = s.pass 1)
      (fun _ => False) (rest none) s := by
    refine .after hsegment <| .after (many_eq_nil ?_) <| .spanFrom <| .pure ⟨rfl, rfl⟩
    change (if (s.pass 1).check .dot && _ then _ else _ : Parser (Option TypeSegment)) (s.pass 1) = _
    rw [ParserState.check, hequal]
    rfl
  refine .ite (fun h => ?_) fun _ => .after (p := Pure.pure none) rfl hrest
  rw [Bool.and_eq_true, decide_eq_true_eq] at h
  exact absurd h.2 hcolon

/-- A member that starts with a built-in type, a name and an equals sign is a field. -/
theorem member_field (typeDecl : MemberHead → Parser TypeDecl) (typeName : String)
    (htype : s.current.kind = .predefinedType) (hname : (s.pass 1).current.kind = .identifier)
    (hequal : ((s.pass 1).pass 1).current.kind = .equal) :
    ∃ name, memberName name = ⟨(s.pass 1).current.name, (s.pass 1).current.span⟩ ∧
      member typeDecl typeName s =
      field ⟨[], .empty, s.current.span⟩ (.predefined s.current.lexeme s.current.span) name
        ((s.pass 1).pass 1) := by
  have hhead : memberHead s = .ok ⟨[], .empty, s.current.span⟩ s :=
    memberHead_eq (by simp [ParserState.check, htype]) (by simp [isModifier, htype])
  have hkeyword : isTypeKeyword s = false := by simp [isTypeKeyword, htype]
  have hconstructor : isConstructor typeName s = false := by simp [isConstructor, ParserState.check, htype]
  have hdot : ((s.pass 1).pass 1).check .dot = false := by
    rw [ParserState.check, hequal]
    rfl
  obtain ⟨name, _, hrun, hmember, rfl⟩ := (namedType_equal hname hequal).exists_ok
  refine ⟨name, hmember, (bind_eq hhead _).trans ?_⟩
  change (if isTypeKeyword s then _ else memberAfter typeName ⟨[], .empty, s.current.span⟩ : Parser
    MemberDecl) s = _
  rw [hkeyword, if_neg Bool.false_ne_true]
  have hafter : memberAfter typeName ⟨[], .empty, s.current.span⟩ s =
      memberNamed ⟨[], .empty, s.current.span⟩ (.predefined s.current.lexeme s.current.span) (s.pass 1) := by
    refine (bind_eq (p := MonadState.get) rfl _).trans ?_
    rw [htype]
    dsimp only
    rw [hconstructor, if_neg Bool.false_ne_true]
    refine (bind_eq (type_predefined htype hname) _).trans <| (bind_eq (p := peek) rfl _).trans ?_
    rw [hname]
  have hnamed : memberNamed ⟨[], .empty, s.current.span⟩ (.predefined s.current.lexeme s.current.span)
      (s.pass 1) = field ⟨[], .empty, s.current.span⟩ (.predefined s.current.lexeme s.current.span) name
        ((s.pass 1).pass 1) := by
    refine (bind_eq hrun _).trans ?_
    change (if ((s.pass 1).pass 1).check .dot && _ then _ else _ : Parser MemberDecl) ((s.pass 1).pass 1) = _
    rw [hdot, Bool.false_and, if_neg Bool.false_ne_true]
    refine (bind_eq (p := peek) rfl _).trans ?_
    rw [hequal]
  rw [hafter, hnamed]

/-! ### A class with one member -/

/-- A state with errors stays one. -/
theorem invariant_errors : NumberingInvariant (fun s => s.errors ≠ []) fun _ => True where
  pass _ h := h
  report _ _ := by simp [ParserState.report]
  panicking _ _ h := h
  rewind h _ := h
  ahead _ _ := trivial
  nextDecl h := h

/-- What a repetition keeps from its first round on. -/
theorem Outcome.many_first {item : Parser (Option α)} {I E : ParserState → Prop} (loops : Loops item)
    (first : Outcome (fun _ t => I t) E item s) (rest : Keeps I (Parser.many item)) (hE : ∀ t, I t → E t) :
    Outcome (fun _ t => I t) E (Parser.many item) s := by
  rw [loops.eq]
  refine first.bind fun a? t _ ht => ?_
  cases a? with
  | none => exact .pure ht
  | some a => exact ((rest t ht).mono (fun _ _ h => h.1) hE).bind fun _ _ _ hu => .pure hu

/-- What is read between the braces of a class is what the members of the class are read as. -/
theorem typeMembers_class {inner : MemberHead → Parser TypeDecl} {typeName : String}
    {R S : List MemberDecl → ParserState → Prop} {E : ParserState → Prop}
    (hbrace : s.current.kind = .leftBrace) (hbody : Outcome R E (typeBody inner typeName) (s.pass 1))
    (hrest : ∀ members t, R members t →
      Outcome S E (do closingBrace; let _ ← eat .semicolon; return members) t) :
    Outcome S E (typeMembers inner .classKind typeName) s := by
  have hsemicolon : s.check .semicolon = false := by
    rw [ParserState.check, hbrace]
    rfl
  have hkind : TypeKind.classKind ≠ .enumKind := by decide
  refine .after (eat_eq hsemicolon) <| .ite (absurd · Bool.false_ne_true) fun _ =>
    .after (expect_eq (decide_eq_true hbrace)) ?_
  exact .ite (absurd · hkind) fun _ => hbody.bind fun members t _ ht => hrest members t ht

/-- The tokens of a variable of a built-in type whose initial value starts with a modifier. -/
structure NewVariable (type name equal new : Token) : Prop where
  type : type.kind = .predefinedType
  name : name.kind = .identifier
  equal : equal.kind = .equal
  new : new.kind = .modifier

section

variable {typeDecl : MemberHead → Parser TypeDecl} {typeName : String} {all value behind : List Token}
  {i : Nat} {type name equal new : Token}

variable (typeDecl typeName) in
/-- A variable is read up to where the search for the end of its initial value stops. -/
theorem member_newVariable (tokens : NewVariable type name equal new)
    (hunread : s.unread = type :: name :: equal :: new :: (value ++ behind))
    (hlength : Skip.untilLength [.comma, .semicolon] 0 (new :: (value ++ behind)) =
      .closed (value.length + 1)) :
    ∃ head written first, first.name.name = name.name ∧
      member typeDecl typeName s = field head (.predefined type.lexeme type.span) written
        ((s.pass 1).pass 1) ∧
      variableAfter (memberName written) ((s.pass 1).pass 1) = .ok first (s.pass (value.length + 4)) ∧
      first.initializer? = some (.unsupported ((s.pass (value.length + 4)).spanFrom new.span)) := by
  have hu := unread_pass_one hunread
  have hv := unread_pass_one hu
  have hw := unread_pass_one hv
  obtain ⟨written, hwritten, hmember⟩ := member_field typeDecl typeName
    (by rw [current_of_unread hunread, tokens.type]) (by rw [current_of_unread hu, tokens.name])
    (by rw [current_of_unread hv, tokens.equal])
  rw [current_of_unread hunread] at hmember
  have hvariable := variableAfter_modifier (s := (s.pass 1).pass 1) (memberName written)
    (by rw [ParserState.check, current_of_unread hv, tokens.equal]; rfl)
    (by rw [current_of_unread hw, tokens.new]) (by rw [hw, hlength]) (Nat.succ_pos _) (by rw [hw]; simp)
  have hpass : (((s.pass 1).pass 1).pass 1).pass (value.length + 1) = s.pass (value.length + 4) := by
    rw [ParserState.pass_pass, ParserState.pass_pass, ParserState.pass_pass]
    congr 1
    omega
  rw [hpass, current_of_unread hw] at hvariable
  refine ⟨_, written, _, ?_, hmember, hvariable, rfl⟩
  rw [hwritten, current_of_unread hu]

/-- The whole initial value is kept as unsupported if it ends before a semicolon. -/
theorem member_semicolon (ordered : Token.InOrder all) (hs : s.Stands all i)
    (tokens : NewVariable type name equal new) {semicolon : Token} (hsemicolon : semicolon.kind = .semicolon)
    (hunread : s.unread = type :: name :: equal :: new :: (value ++ semicolon :: behind))
    (hlength : Skip.untilLength [.comma, .semicolon] 0 (new :: (value ++ semicolon :: behind)) =
      .closed (value.length + 1)) :
    Outcome (fun m t => m.LoneUnsupported all name.name (i + 3) (i + value.length + 4) ∧ t.unread = behind ∧
      t.errors = s.errors) (fun _ => False) (member typeDecl typeName) s := by
  obtain ⟨head, written, first, hname, hmember, hvariable, hvalue⟩ :=
    member_newVariable typeDecl typeName tokens hunread hlength
  have hall := congrArg List.length hunread
  rw [hs.unread, List.length_drop] at hall
  simp only [List.length_cons, List.length_append] at hall
  have hpassed : (s.pass (value.length + 4)).unread = semicolon :: behind := by
    rw [ParserState.unread_pass, hunread]
    simp
  have hnew : all[i + 3]? = some new := by
    rw [← List.getElem?_drop, ← hs.unread, hunread]
    rfl
  have hfield : field head (.predefined type.lexeme type.span) written ((s.pass 1).pass 1) = .ok _ _ :=
    field_semicolon hvariable (by rw [ParserState.check, current_of_unread hpassed, hsemicolon]; rfl)
  refine .of_eq (hmember.trans hfield) ⟨⟨_, first, _, rfl, rfl, hname, hvalue, ?_⟩,
    unread_pass_one hpassed, rfl⟩
  exact (hs.pass (n := value.length + 4) (by omega)).spanFrom ordered (Span.Over.single hnew) (by omega)

/-- The member cannot be read if the initial value ends before a comma in a list of type arguments. -/
theorem member_comma (calm : s.panicking = false) (tokens : NewVariable type name equal new)
    (hunread : s.unread = type :: name :: equal :: new :: (value ++ behind))
    (hlength : Skip.untilLength [.comma, .semicolon] 0 (new :: (value ++ behind)) =
      .closed (value.length + 1))
    (hbehind : BeforeGreater behind) :
    Outcome (fun _ _ => False) (·.panicking = false) (member typeDecl typeName) s := by
  obtain ⟨head, written, first, -, hmember, hvariable, -⟩ :=
    member_newVariable typeDecl typeName tokens hunread hlength
  have hpassed : (s.pass (value.length + 4)).unread = behind := by
    rw [ParserState.unread_pass, hunread]
    simp
  unfold Outcome
  rw [hmember]
  exact field_comma hvariable (hpassed ▸ hbehind) calm

/-- A member starts where neither a closing brace nor a semicolon stands. -/
theorem memberRound_eq {R : Option (Option MemberDecl) → ParserState → Prop} {E : ParserState → Prop}
    (start : s.current.kind = .predefinedType)
    (h : Outcome (fun m? t => R (some m?) t) E
      (recovering none (some <$> member Parser.typeDecl typeName)) s) :
    Outcome R E (memberRound typeName) s := by
  have hother : s.check .rightBrace = false ∧ s.check .semicolon = false := by
    simp [ParserState.check, start]
  have hend : s.atEnd = false := ParserState.atEnd_of_check (by decide) (decide_eq_true start)
  refine .atEnd <| .check <| .ite (fun hclosed => ?_) fun _ => ?_
  · rw [hend, hother.1] at hclosed
    cases hclosed
  · exact .eat (fun hcheck => by rw [hother.2] at hcheck; cases hcheck) fun _ =>
      .ite (absurd · Bool.false_ne_true) fun _ => h.map fun _ _ h => h

/-- No member starts at a closing brace. -/
theorem memberRound_eq_none (h : s.check .rightBrace = true) : memberRound typeName s = .ok none s := by
  have hrun : Outcome (fun m? t => m? = none ∧ t = s) (fun _ => False) (memberRound typeName) s := by
    refine .atEnd <| .check <| .ite (fun _ => .pure ⟨rfl, rfl⟩) fun hopen => absurd ?_ hopen
    rw [h, Bool.or_true]
  obtain ⟨_, _, heq, rfl, rfl⟩ := hrun.exists_ok
  exact heq

/-- A body with one member before its closing brace. -/
theorem typeBody_single {P : MemberDecl → ParserState → Prop} (start : s.current.kind = .predefinedType)
    (hmember : Outcome (fun m t => P m t ∧ t.check .rightBrace = true) (fun _ => False)
      (member Parser.typeDecl typeName) s) :
    Outcome (fun members t => ∃ m, members = [m] ∧ P m t ∧ t.check .rightBrace = true) (fun _ => False)
      (typeBody Parser.typeDecl typeName) s := by
  have hround : Outcome (fun a? t => ∃ m, a? = some (some m) ∧ P m t ∧ t.check .rightBrace = true)
      (fun _ => False) (memberRound typeName) s :=
    memberRound_eq start <| .tryCatch (hmember.map fun m _ h => ⟨m, rfl, h⟩) fun _ _ _ h => h.elim
  obtain ⟨_, t, hfirst, m, rfl, hP, hbrace⟩ := hround.exists_ok
  have hshorter := ((memberRound_advancing typeName s).of_ok hfirst) rfl
  have hmany := (Items.more hfirst hshorter (.done (memberRound_eq_none hbrace))).many_eq
  exact .after hmany <| .pure ⟨m, rfl, hP, hbrace⟩

/-- If the first member of a body cannot be read, that is reported. -/
theorem typeBody_unreadable (start : s.current.kind = .predefinedType)
    (hmember : Outcome (fun _ _ => False) (·.panicking = false) (member Parser.typeDecl typeName) s) :
    Outcome (fun _ t => t.errors ≠ []) (fun t => t.errors ≠ []) (typeBody Parser.typeDecl typeName) s := by
  have hround : Outcome (fun _ t => t.errors ≠ []) (fun t => t.errors ≠ []) (memberRound typeName) s := by
    refine memberRound_eq start <| .tryCatch (hmember.map fun _ _ h => h.elim) fun e t _ calm => .modify <|
      .pure ?_
    refine invariant_errors.toStable.synchronize ?_
    rw [ParserState.record, if_neg (by simp [calm])]
    simp [ParserState.report]
  have inv := invariant_errors
  have hrest : Keeps (fun s => s.errors ≠ []) (many (memberRound typeName)) :=
    .keeps_many <| .bind .atEnd fun _ _ => .bind (.check _) fun _ _ => .ite (fun _ => .pure trivial) fun _ =>
      .bind (inv.eat _) fun _ _ => .ite (fun _ => .pure trivial) fun _ =>
        .map (inv.recovering (Q := fun _ => True) trivial
          (.map (inv.member inv.typeDecl typeName) fun _ _ => trivial)) fun _ _ => trivial
  exact (Outcome.many_first (loopsAdvance.typeBody typeName).1 hround hrest fun _ h => h).bind fun _ _ _ h =>
    .pure h

section

variable {keyword className opening : Token} {body : List Token}
  (hunread : s.unread = keyword :: className :: opening :: body) (hkeyword : keyword.kind = .classKeyword)
  (hclass : className.kind = .identifier) (hopening : opening.kind = .leftBrace)
  (start : body.head?.any (·.kind = .predefinedType) = true) (head : MemberHead)
include hunread hkeyword hclass hopening start

/-- What the body of a class is read as is what the class is read as. -/
theorem typeDecl_body {R S : List MemberDecl → ParserState → Prop} {E : ParserState → Prop}
    (hbody : ∀ w : ParserState, w = ({ s with nextDecl := s.nextDecl + 1 }).pass 3 → w.unread = body →
      w.current.kind = .predefinedType → Outcome R E (typeBody Parser.typeDecl className.name) w)
    (hrest : ∀ members t, R members t →
      Outcome S E (do closingBrace; let _ ← eat .semicolon; return members) t) :
    Outcome (fun decl t => S decl.members t) E (Parser.typeDecl head) s := by
  rw [typeDecl_recurs.eq]
  have hu : ((({ s with nextDecl := s.nextDecl + 1 } : ParserState).pass 1).pass 1).unread =
      opening :: body :=
    unread_pass_one (unread_pass_one hunread)
  have hw := unread_pass_one hu
  obtain ⟨first, behind, rfl⟩ : ∃ first behind, body = first :: behind := by
    cases body with
    | nil => cases start
    | cons first behind => exact ⟨first, behind, rfl⟩
  refine (typeDeclOf_class hunread hkeyword hclass hopening head <| typeMembers_class (R := R)
    (by rw [current_of_unread hu, hopening]) (hbody _ ?_ hw ?_) hrest).mono (fun _ _ h => h.1) fun _ h => h
  · rw [ParserState.pass_pass, ParserState.pass_pass]
  · rw [current_of_unread hw]
    simpa using start

/-- A class with one member before its closing brace. -/
theorem typeDecl_single {closing : Token} {P : MemberDecl → ParserState → Prop}
    (hclosing : closing.kind = .rightBrace)
      (hmember : ∀ w : ParserState, w = ({ s with nextDecl := s.nextDecl + 1 }).pass 3 →
      Outcome (fun m t => P m t ∧ t.unread = [closing]) (fun _ => False)
        (member Parser.typeDecl className.name) w) :
    Outcome (fun decl t => ∃ m u, decl.members = [m] ∧ P m u ∧ t = u.pass 1 ∧ t.unread = []) (fun _ => False)
      (Parser.typeDecl head) s := by
  refine typeDecl_body (R := fun members t => ∃ m, members = [m] ∧ P m t ∧ t.unread = [closing])
    (S := fun members t => ∃ m u, members = [m] ∧ P m u ∧ t = u.pass 1 ∧ t.unread = [])
    hunread hkeyword hclass hopening start head (fun w hw hbody hkind => ?_) fun members t ht => ?_
  · refine (typeBody_single hkind ((hmember w hw).mono (fun m t h => ⟨h, ?_⟩) fun _ h => h)).mono
      (fun _ _ ⟨m, hm, h, _⟩ => ⟨m, hm, h⟩) fun _ h => h
    rw [ParserState.check, current_of_unread h.2, hclosing]
    rfl
  · obtain ⟨m, rfl, hP, hend⟩ := ht
    have hnone := unread_pass_one hend
    have hbrace : t.check .rightBrace = true := by
      rw [ParserState.check, current_of_unread hend, hclosing]
      rfl
    have hsemicolon : (t.pass 1).check .semicolon = false := by
      rw [ParserState.check_eq_any (by decide), hnone]
      rfl
    exact .after (bind_eq (eat_eq_true hbrace) _) <| .after (eat_eq hsemicolon) <|
      .pure ⟨m, t, rfl, hP, rfl, hnone⟩

/-- If the first member of a class cannot be read, that is reported. -/
theorem typeDecl_unreadable
    (hmember : ∀ w : ParserState, w = ({ s with nextDecl := s.nextDecl + 1 }).pass 3 →
      Outcome (fun _ _ => False) (·.panicking = false) (member Parser.typeDecl className.name) w) :
    Outcome (fun _ t => t.errors ≠ []) (fun t => t.errors ≠ []) (Parser.typeDecl head) s := by
  refine typeDecl_body (S := fun _ t => t.errors ≠ []) hunread hkeyword hclass hopening start head
    (fun w hw _ hkind => typeBody_unreadable hkind (hmember w hw)) fun members t ht => ?_
  have hrest : Keeps (fun t => t.errors ≠ []) (do closingBrace; let _ ← eat .semicolon; return members) :=
    .bind invariant_errors.closingBrace fun _ _ => .bind (invariant_errors.eat _) fun _ _ => .pure trivial
  exact (hrest t ht).mono (fun _ _ h => h.1) fun _ h => h

end

/-! ### A file with one class -/

/-- No item starts at the end of a file. -/
theorem namespaceRound_eq_none (h : s.unread = []) : namespaceRound false s = .ok none s := by
  have hrun : Outcome (fun part? t => part? = none ∧ t = s) (fun _ => False) (namespaceRound false) s := by
    refine .atEnd <| .check <| .ite (fun _ => .pure ⟨rfl, rfl⟩) fun hmore => absurd ?_ hmore
    rw [ParserState.atEnd_iff.2 h, Bool.true_or]
  obtain ⟨_, _, heq, rfl, rfl⟩ := hrun.exists_ok
  exact heq

/-- An item is tried before the end of a file. -/
theorem namespaceRound_eq {R : Option NamespaceBody → ParserState → Prop} {E : ParserState → Prop}
    (hmore : s.atEnd = false)
    (h : Outcome R E (some <$> recovering .empty (namespaceItem namespaceDecl)) s) :
    Outcome R E (namespaceRound false) s := by
  refine .atEnd <| .check <| .ite (fun hend => ?_) fun _ => h
  rw [hmore] at hend
  cases hend

/-- A file of one class holds what the class is read as. -/
theorem sourceFile_single {P : TypeDecl → ParserState → Prop} (start : s.current.kind = .classKeyword)
    (hdecl : Outcome (fun decl t => P decl t ∧ t.unread = []) (fun _ => False)
      (Parser.typeDecl ⟨[], .empty, s.current.span⟩) s) :
    Outcome (fun file t => ∃ decl, file.members = [.type decl] ∧ P decl t)
      (fun _ => False) sourceFile s := by
  have hend : s.atEnd = false := ParserState.atEnd_of_check (by decide) (decide_eq_true start)
  have hround : Outcome (fun part? t => ∃ part decl, part? = some part ∧ part.members = [.type decl] ∧
      P decl t ∧ t.unread = []) (fun _ => False) (namespaceRound false) s :=
    namespaceRound_eq hend <|
      .map (.tryCatch (namespaceItem_typeDecl namespaceDecl start hdecl) fun _ _ _ h => h.elim)
      fun part t ⟨decl, hmembers, h⟩ => ⟨part, decl, rfl, hmembers, h⟩
  obtain ⟨_, t, hfirst, part, decl, rfl, hmembers, hP, hnone⟩ := hround.exists_ok
  have hshorter : t.unread.length < s.unread.length := by
    rw [hnone]
    exact ParserState.length_pos hend
  have hmany := (Items.more hfirst hshorter (.done (namespaceRound_eq_none hnone))).many_eq
  refine .get <| .after (p := namespaceBody namespaceDecl false) (bind_eq hmany _) <| .pure ⟨decl, ?_, hP⟩
  simp [NamespaceBody.concat, NamespaceBody.append, NamespaceBody.empty, hmembers]

/-- Errors in the first class of a file are errors of the file. -/
theorem sourceFile_errors (start : s.current.kind = .classKeyword)
    (hdecl : Outcome (fun _ t => t.errors ≠ []) (fun t => t.errors ≠ [])
      (Parser.typeDecl ⟨[], .empty, s.current.span⟩) s) :
    Outcome (fun _ t => t.errors ≠ []) (fun t => t.errors ≠ []) sourceFile s := by
  have inv := invariant_errors
  have hend : s.atEnd = false := ParserState.atEnd_of_check (by decide) (decide_eq_true start)
  have hround : Outcome (fun _ t => t.errors ≠ []) (fun t => t.errors ≠ []) (namespaceRound false) s := by
    refine namespaceRound_eq hend <| .map (.tryCatch ((namespaceItem_typeDecl namespaceDecl start hdecl).mono
      (fun _ _ ⟨_, _, h⟩ => h) fun _ h => h) fun e t _ h => .modify <| .pure ?_) fun _ _ h => h
    exact inv.toStable.synchronize (inv.toStable.record e h)
  have hrest : Keeps (fun s => s.errors ≠ []) (many (namespaceRound false)) :=
    .keeps_many <| .bind .atEnd fun _ _ => .bind (.check _) fun _ _ => .ite (fun _ => .pure trivial) fun _ =>
      .map (inv.recovering trivial (inv.namespaceItem inv.namespaceDecl).keeps) fun _ _ => trivial
  refine .get <| Outcome.bind (Q := fun _ t => t.errors ≠ []) ?_ fun _ _ _ h => .pure h
  exact (Outcome.many_first (loopsAdvance.namespaceBody false).1 hround hrest fun _ h => h).bind
    fun _ _ _ h => .pure h

end

/-- The tokens of a class whose only member is a variable, given what stands between the first token of its
initial value and the semicolon behind it. -/
inductive LoneVariable (name : Token) (value : List Token) : List Token → Prop where
  | intro {keyword className opening type equal new semicolon closing : Token}
      (hkeyword : keyword.kind = .classKeyword)
      (hclass : className.kind = .identifier) (hopening : opening.kind = .leftBrace)
      (tokens : NewVariable type name equal new) (hsemicolon : semicolon.kind = .semicolon)
      (hclosing : closing.kind = .rightBrace) :
      LoneVariable name value
        (keyword :: className :: opening :: type :: name :: equal :: new :: (value ++ [semicolon, closing]))

section

variable {all value : List Token} {name : Token}

/-- A value that ends before the semicolon is kept as a whole. -/
theorem LoneVariable.sourceFile_semicolon (h : LoneVariable name value all)
    (hlength : ∀ t u, t.kind = .modifier → u.kind = .semicolon → ∀ behind,
      Skip.untilLength [.comma, .semicolon] 0 (t :: (value ++ u :: behind)) = .closed (value.length + 1))
    (ordered : Token.InOrder all) (hs : s.Stands all 0) :
    Outcome (fun file t => ∃ decl m, file.members = [.type decl] ∧ decl.members = [m] ∧
      m.LoneUnsupported all name.name 6 (value.length + 7) ∧ t.errors = s.errors)
        (fun _ => False) sourceFile s := by
  have hunread : s.unread = all := hs.unread
  have hnumbered : ({ s with nextDecl := s.nextDecl + 1 } : ParserState).Stands all 0 :=
    ⟨hs.unread, hs.inside, hs.last?, hs.tidy⟩
  obtain ⟨tokens, hsame⟩ : ∃ tokens, all = tokens := ⟨_, rfl⟩
  rw [hsame] at h
  cases h with
  | @intro keyword className opening type equal new semicolon closing hkeyword hclass hopening htokens
      hsemicolon hclosing =>
      rw [hsame] at hunread
      have hstart : s.current.kind = .classKeyword := by rw [current_of_unread hunread, hkeyword]
      have hdecl := typeDecl_single (P := fun m t => m.LoneUnsupported all name.name 6 (value.length + 7) ∧
        t.errors = s.errors) hunread hkeyword hclass hopening (by simp [htokens.type])
        ⟨[], .empty, s.current.span⟩ hclosing fun w hw => ?_
      · refine (sourceFile_single (P := fun decl t => ∃ m, decl.members = [m] ∧
          m.LoneUnsupported all name.name 6 (value.length + 7) ∧ t.errors = s.errors) hstart
          (hdecl.mono ?_ fun _ h => h)).mono ?_ fun _ h => h
        · rintro decl t ⟨m, u, hm, ⟨hlone, herrors⟩, rfl, hnone⟩
          exact ⟨⟨m, hm, hlone, herrors⟩, hnone⟩
        · rintro file t ⟨decl, hfile, m, hm, hlone, herrors⟩
          exact ⟨decl, m, hfile, hm, hlone, herrors⟩
      · have hw' : w.Stands all 3 := by
          rw [hw]
          exact hnumbered.pass (n := 3) (by rw [hsame]; simp)
        have hbody : w.unread = type :: name :: equal :: new :: (value ++ semicolon :: [closing]) := by
          rw [hw'.unread, hsame]
          rfl
        refine (member_semicolon ordered hw' htokens hsemicolon hbody
          (hlength _ _ htokens.new hsemicolon _)).mono ?_ fun _ h => h
        rintro m t ⟨hlone, hbehind, herrors⟩
        refine ⟨⟨?_, ?_⟩, hbehind⟩
        · rwa [Nat.add_comm 3 value.length, Nat.add_right_comm] at hlone
        · rw [herrors, hw]
          rfl

/-- A value that ends before a comma in a list of type arguments is an error. -/
theorem LoneVariable.sourceFile_comma {before behind : List Token}
    (h : LoneVariable name (before ++ behind) all) (hlength : ∀ t v, t.kind = .modifier →
      Skip.untilLength [.comma, .semicolon] 0 (t :: (before ++ (behind ++ v))) = .closed (before.length + 1))
    (hbehind : BeforeGreater behind) (hunread : s.unread = all) (calm : s.panicking = false) :
    Outcome (fun _ t => t.errors ≠ []) (fun t => t.errors ≠ []) sourceFile s := by
  cases h with
  | @intro keyword className opening type equal new semicolon closing hkeyword hclass hopening htokens
      hsemicolon hclosing =>
      have hstart : s.current.kind = .classKeyword := by rw [current_of_unread hunread, hkeyword]
      refine sourceFile_errors hstart <| typeDecl_unreadable hunread hkeyword hclass hopening
        (by simp [htokens.type]) _ ?_
      rintro _ rfl
      have hbody : (({ s with nextDecl := s.nextDecl + 1 } : ParserState).pass 3).unread =
          type :: name :: equal :: new :: (before ++ (behind ++ [semicolon, closing])) := by
        change s.unread.drop 3 = _
        rw [hunread, ← List.append_assoc]
        rfl
      refine member_comma calm htokens hbody (hlength _ _ htokens.new) ?_
      obtain ⟨u, greater, rest, rfl, hgreater, hu⟩ := hbehind
      exact ⟨u, greater, rest ++ [semicolon, closing], by simp, hgreater, hu⟩

end

end Parser

end Graft
