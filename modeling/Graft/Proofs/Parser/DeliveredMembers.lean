/-
Module: Graft.Proofs.Parser.DeliveredMembers
Purpose: The parts of declarations are read from the tokens that they are written with.
Main exports: Parser.AreModifiers, Parser.delivers_memberHead, Parser.PropertyTokens,
  Parser.PropertyTokens.delivers

A property is read from a modifier, the tokens of its type, those of its name and those of its getter.  The
first word of the type is taken for a modifier, or for the keyword of a declaration, if it is all that the
type consists of and is one of a few words.
-/
import Graft.Proofs.Parser.LoneField
import Graft.Proofs.Parser.RepeatedDirectives
import Graft.Proofs.Parser.RepeatedGetters

namespace Graft.Parser

variable {all u v w : List Token} {i j k : Nat} {t : Token}

/-! ### Types -/

/-- A type that starts with an identifier goes on with a point, an angle bracket or a
suffix, or it is just a name. -/
theorem Begins.of_identifier {type : TypeSyntax} (h : Begins type (t :: u)) (ht : t.kind = .identifier) :
    (∃ b more, u = b :: more ∧ b.kind ∈ typeGoesOn) ∨ u = [] ∧ type.display = t.name := by
  have hplain : Begins (.named ⟨none, [⟨⟨t.name, default⟩, []⟩], default⟩) [t] :=
    begins_named (.plain (.last (.plain ht rfl)))
  let s : ParserState := ⟨⟨0⟩, t :: u, ⟨0, 1, 1⟩, none, [], false, 0⟩
  have hend : (s.pass (t :: u).length).current.kind = .endOfFile := by
    rw [ParserState.current, ParserState.ahead, unread_pass (s := s) (b := []) (List.append_nil _).symm]
    rfl
  obtain ⟨found, hrun, hsame⟩ := h.reads s [] (List.append_nil _).symm (by rw [hend]; decide)
  cases u with
  | nil =>
      obtain ⟨found', hrun', hsame'⟩ := hplain.reads s [] rfl (by rw [hend]; decide)
      obtain ⟨rfl, -⟩ := EStateM.Result.ok.inj (hrun.symm.trans hrun')
      have hdisplay := congrArg TypeSyntax.display (hsame.trans hsame'.symm)
      rw [TypeSyntax.display_unplaced, TypeSyntax.display_unplaced, TypeSyntax.display, NamedType.display,
        TypeSyntax.displaySegments_singleton, TypeSyntax.displaySegment] at hdisplay
      exact .inr ⟨rfl, hdisplay⟩
  | cons b more =>
      refine .inl ⟨b, more, rfl, Classical.byContradiction fun hother => ?_⟩
      -- otherwise the type would end behind its first token
      obtain ⟨_, hrun', -⟩ := hplain.reads s (b :: more) rfl hother
      obtain ⟨-, hstate⟩ := EStateM.Result.ok.inj (hrun.symm.trans hrun')
      have hlength := congrArg (fun s => s.unread.length) hstate
      simp [s, ParserState.unread_pass] at hlength

/-! ### Modifiers -/

/-- The modifiers that some tokens stand for. -/
def modifiersOf (tokens : List Token) : Modifiers :=
  (tokens.filterMap fun t => Modifiers.ofKeyword? t.lexeme).foldl .union .empty

/-- Tokens that are modifiers where a declaration goes on behind them. -/
def AreModifiers (tokens : List Token) : Prop :=
  ∀ t ∈ tokens, t.kind = .modifier ∨ t.kind = .identifier ∧ t.lexeme ∈ contextualModifiers

/-- Modifiers are passed one after another. -/
theorem deliversAll_modifiers (h : AreModifiers u) (hu : all.drop i = u ++ v)
    (next : followsModifier (nextKind all (i + u.length)) = true)
    (stop : ∀ s, s.Stands all (i + u.length) → isModifier s = false) :
    DeliversAll all i (i + u.length) (· = u) (whenever (return isModifier (← get)) advance) := by
  induction u generalizing i with
  | nil =>
      refine .nil (fun s hs clean => ?_) rfl
      change Outcome _ _ (if isModifier s = true then _ else _ : Parser (Option Token)) s
      rw [stop s hs]
      exact ⟨hs, clean, rfl⟩
  | cons t u ih =>
      rw [List.length_cons, Nat.add_comm u.length 1, ← Nat.add_assoc] at next stop ⊢
      have hat := getElem?_of_drop hu
      have hbehind := drop_of_cons hu
      have hnext : followsModifier (nextKind all (i + 1)) = true := by
        cases u with
        | nil => exact next
        | cons b u =>
            rw [nextKind_of_append hbehind]
            rcases h b (by simp) with hkind | ⟨hkind, -⟩ <;> rw [hkind] <;> rfl
      have hfirst : Delivers all i (i + 1) (fun a? => ∃ a, a? = some a ∧ a = t)
          (whenever (return isModifier (← get)) advance) := fun s hs clean => by
        have hmodifier : isModifier s = true := by
          rw [isModifier, current_of_stands hs hat]
          rcases h t List.mem_cons_self with hkind | ⟨hkind, hword⟩ <;> rw [hkind]
          rw [kind_ahead_of_stands hs, hnext, Bool.and_true]
          exact List.contains_iff_mem.2 hword
        change Outcome _ _ (if isModifier s = true then _ else _ : Parser (Option Token)) s
        rw [if_pos hmodifier]
        exact (Delivers.next hu).map (fun a ha => ⟨a, rfl, ha⟩) s hs clean
      refine .cons hfirst (Nat.lt_succ_self i)
        ((ih (fun b hb => h b (List.mem_cons_of_mem t hb)) hbehind next stop).mono ?_)
      rintro _ rfl _ rfl
      rfl

/-- The head of a declaration without attributes is read from its modifiers. -/
theorem delivers_memberHead (h : AreModifiers u) (hu : all.drop i = u ++ v) (nonempty : u ≠ [])
    (next : followsModifier (nextKind all (i + u.length)) = true)
    (stop : ∀ s, s.Stands all (i + u.length) → isModifier s = false) :
    Delivers all i (i + u.length) (fun head => head.attributes = [] ∧ head.modifiers = modifiersOf u)
      memberHead := by
  obtain ⟨t, more, rfl⟩ := List.exists_cons_of_ne_nil nonempty
  have hkind : nextKind all i ≠ .leftBracket := by
    rw [nextKind_of_append hu]
    rcases h t List.mem_cons_self with hkind | ⟨hkind, -⟩ <;> rw [hkind] <;> decide
  have hlists : Delivers all i i (· = []) attributeLists := by
    refine DeliversAll.many (.nil (.check _ ?_) rfl)
    rw [decide_eq_false hkind]
    exact .pure rfl
  have hmodifiers : Delivers all i (i + (t :: more).length) (· = modifiersOf (t :: more)) modifiers :=
    (deliversAll_modifiers h hu next stop).many.bind fun _ htokens => .pure (by rw [htokens]; rfl)
  exact .peek (getElem?_of_drop hu) <| hlists.bind fun _ hnone => hmodifiers.bind fun _ hsome =>
    .pure ⟨hnone, hsome⟩

/-! ### Getters -/

/-- The tokens of the getter of a property with what stands around them. -/
inductive GetterTokens : GetterForm → List Token → List Token → Prop where
  | arrow {getter : List Token} {semicolon : Token} (written : GetterForm.arrow.Written getter)
      (hsemicolon : semicolon.kind = .semicolon) : GetterTokens .arrow getter (getter ++ [semicolon])
  | accessor {getter : List Token} {opening closing : Token} (written : GetterForm.accessor.Written getter)
      (hopening : opening.kind = .leftBrace) (hclosing : closing.kind = .rightBrace) :
      GetterTokens .accessor getter (opening :: (getter ++ [closing]))

/-- A member is a property without a value, with a name, modifiers and a getter. -/
def IsCopy (all : List Token) (name : String) (modifiers : Modifiers) (form : GetterForm)
    (getter : List Token) (m : MemberDecl) : Prop :=
  ∃ p, m = .property p ∧ p.name.name = name ∧ p.modifiers = modifiers ∧ p.initializer? = none ∧
    ∃ span a b, p.getter? = some (form, span) ∧ span.Over all a b ∧ Token.between all a b = getter

/-- An accessor has some tokens, and does not start with a closing brace. -/
theorem nextKind_of_accessor (ordered : Token.InOrder all) (h : GetterForm.accessor.Written u)
    (hu : all.drop i = u ++ v) (hle : i ≤ all.length) : nextKind all i ≠ .rightBrace ∧ u ≠ [] := by
  let s : ParserState := ⟨⟨0⟩, all.drop i, ⟨0, 1, 1⟩, (all.take i).getLast?, [], false, 0⟩
  have hs : s.Stands all i := ⟨rfl, hle, rfl, nofun⟩
  obtain ⟨a, t, hrun, -, hclean, -⟩ := (h s v hu rfl).exists_ok
  obtain ⟨j, -, -, hat⟩ := (Reads.accessor ordered s hs).of_ok hrun
  have hstart : Part.FitsAccessor all i j a := (hat hclean).2.fits
  refine ⟨?_, ?_⟩
  · rcases hstart.1 with ⟨t, ht, hkind⟩ | ⟨t, ht, hkind⟩ | ⟨t, ht, hkind⟩ <;>
    · rw [nextKind, ht]
      exact fun heq => absurd (hkind.symm.trans heq) (by decide)
  · rintro rfl
    obtain ⟨_, _, hrun', -⟩ := (h ⟨⟨0⟩, [], ⟨0, 1, 1⟩, none, [], false, 0⟩ [] rfl rfl).exists_ok
    cases hrun'

namespace GetterTokens

variable {form : GetterForm} {getter : List Token}

theorem between_eq (hu : all.drop i = u ++ v) : Token.between all i (i + u.length) = u := by
  rw [Token.between, hu, Nat.add_sub_cancel_left, List.take_left]

/-- A getter between braces is read as the only accessor. -/
theorem delivers_accessors (ordered : Token.InOrder all) {opening closing : Token}
    (written : GetterForm.accessor.Written getter) (hopening : opening.kind = .leftBrace)
    (hclosing : closing.kind = .rightBrace) (hu : all.drop i = opening :: (getter ++ closing :: v)) :
    Delivers all i (i + 1 + getter.length + 1) (fun list => ∃ a, list = [a] ∧ a.kind = .get ∧
      a.body ≠ .missing ∧ a.span.Over all (i + 1) (i + 1 + getter.length)) accessors := by
  have hinside := drop_of_cons hu
  have hbehind := drop_of_append hinside
  have hle : i + 1 ≤ all.length := (List.getElem?_eq_some_iff.1 (getElem?_of_drop hu)).1
  obtain ⟨hfirst, hsome⟩ := nextKind_of_accessor ordered written hinside hle
  have hlt : i + 1 < i + 1 + getter.length := Nat.lt_add_of_pos_right (List.length_pos_of_ne_nil hsome)
  have haccessor : Delivers all (i + 1) (i + 1 + getter.length) (fun a? => ∃ a, a? = some a ∧ a.kind = .get ∧
      a.body ≠ .missing ∧ a.span.Over all (i + 1) (i + 1 + getter.length)) (some <$> Parser.accessor) :=
    (written.delivers_accessor ordered hinside).map fun a ha => ⟨a, rfl, ha⟩
  refine .expect hu hopening <| DeliversAll.many <| .cons (.notEaten hfirst haccessor) hlt <|
    .nil ?_ fun a ha => ⟨a, rfl, ha⟩
  exact .eat hbehind hclosing (.pure rfl)

/-- The getter of a property is read, and what else there is to the property. -/
theorem delivers (ordered : Token.InOrder all) (h : GetterTokens form getter u) (hu : all.drop i = u ++ v)
    (next : nextKind all (i + u.length) ≠ .equal) (head : MemberHead) (type : TypeSyntax)
    (name : NamedType) :
    Delivers all i (i + u.length) (IsCopy all (memberName name).name head.modifiers form getter)
      (property head type name) := by
  refine .check .arrow ?_
  extract_lets rest
  have hrest : ∀ j body, (∀ p : PropertyDecl, p.body = body → ∃ span a b, p.getter? = some (form, span) ∧
      span.Over all a b ∧ Token.between all a b = getter) →
        Delivers all j j (IsCopy all (memberName name).name head.modifiers form getter)
        (rest (body, none)) :=
    fun j body hgetter => .someSpan fun span => .pure ⟨_, rfl, rfl, rfl, rfl, hgetter _ rfl⟩
  cases h with
  | arrow written hsemicolon =>
      obtain ⟨arrow, w, hgetter, harrow, -⟩ := id written
      rw [List.append_assoc] at hu
      have hkind : nextKind all i = .arrow := by
        rw [hgetter] at hu
        exact (nextKind_of_append hu).trans harrow
      rw [decide_eq_true hkind, if_pos rfl, List.length_append, ← Nat.add_assoc]
      refine (written.delivers_arrowBody ordered hu hsemicolon).bind fun span hspan =>
        hrest _ (.arrow span) ?_
      exact fun p hp => ⟨span, _, _, by rw [PropertyDecl.getter?, hp], hspan, between_eq hu⟩
  | @accessor getter opening closing written hopening hclosing =>
      rw [List.cons_append, List.append_assoc] at hu
      have hkind : nextKind all i = .leftBrace := (nextKind_of_drop hu).trans hopening
      have hlength : i + (opening :: (getter ++ [closing])).length = i + 1 + getter.length + 1 := by
          simp; omega
      rw [decide_eq_false (by rw [hkind]; decide), if_neg Bool.false_ne_true]
      rw [hlength] at next ⊢
      refine (delivers_accessors ordered written hopening hclosing hu).bind fun list hlist =>
        .notEaten next (hrest _ (.accessors list) fun p hp => ?_)
      obtain ⟨a, rfl, hget, hbody, hspan⟩ := hlist
      refine ⟨a.span, _, _, ?_, hspan, between_eq (drop_of_cons hu)⟩
      rw [PropertyDecl.getter?, hp]
      simp [hget, hbody]

/-- The getter of a property starts with an arrow or a brace. -/
theorem starts (h : GetterTokens form getter u) :
    ∃ t rest, u = t :: rest ∧ (t.kind = .arrow ∨ t.kind = .leftBrace) := by
  cases h with
  | arrow written _ =>
      obtain ⟨arrow, w, rfl, harrow, -⟩ := written
      exact ⟨arrow, _, rfl, .inl harrow⟩
  | accessor _ hopening _ => exact ⟨_, _, rfl, .inr hopening⟩

end GetterTokens

/-! ### Properties -/

/-- What a type of one word must not be where a property starts with it. -/
def misreadTypes : List String := "record" :: contextualModifiers

theorem lexeme_not_misread {type : TypeSyntax} (plain : type.display ∉ misreadTypes)
    (h : type.display = t.name) :
    t.lexeme ∉ misreadTypes := by
  intro hmem
  have hname : t.name = t.lexeme := by
    simp only [misreadTypes, contextualModifiers, List.mem_cons, List.not_mem_nil, or_false] at hmem
    rcases hmem with hword | hword | hword | hword | hword <;> rw [Token.name, hword] <;> rfl
  exact plain (by rwa [h, hname])

/-- The tokens of a property with a modifier, a type, a name and a getter. -/
structure PropertyTokens (modifier : Token) (type : TypeSyntax) (name : NamedType) (form : GetterForm)
    (getter u : List Token) : Prop where
  parts : ∃ ofType ofName ofGetter, u = modifier :: (ofType ++ (ofName ++ ofGetter)) ∧ Begins type ofType ∧
    NameTokens true name ofName ∧ GetterTokens form getter ofGetter
  kind : modifier.kind = .modifier
  plain : type.display ∉ misreadTypes

namespace PropertyTokens

variable {modifier : Token} {type : TypeSyntax} {name : NamedType} {form : GetterForm} {getter : List Token}

/-- A type is not taken for a modifier, for the keyword of a declaration or for the name of a constructor. -/
theorem not_misread {word : Token} {s : ParserState} (h : Begins type (word :: u))
    (hstart : word.kind ∈ typeStarts) (hu : all.drop i = word :: u ++ v)
    (plain : type.display ∉ misreadTypes) (hnext : nextKind all (i + (word :: u).length) = .identifier)
    (hs : s.Stands all i) :
    isModifier s = false ∧ isTypeKeyword s = false ∧ ∀ typeName, isConstructor typeName s = false := by
  have hcurrent : s.current = word := current_of_stands hs (getElem?_of_drop hu)
  have hahead : (s.ahead 1).kind = nextKind all (i + 1) := kind_ahead_of_stands hs 1
  rw [isModifier, isTypeKeyword]
  simp only [isConstructor, ParserState.check, hcurrent, hahead]
  simp only [typeStarts, List.mem_cons, List.not_mem_nil, or_false] at hstart
  rcases hstart with hkind | hkind | hkind
  · simp [hkind]
  · simp [hkind]
  -- a name goes on as a type, or it is all of the type and no word that would be misread
  rcases h.of_identifier hkind with ⟨b, more, rfl, hb⟩ | ⟨rfl, hname⟩
  · rw [nextKind_of_append (drop_of_cons hu)]
    have hother : ∀ kind ∈ typeGoesOn, followsModifier kind = false ∧ kind ≠ .identifier ∧
        kind ≠ .classKeyword ∧ kind ≠ .structKeyword ∧ kind ≠ .leftParen := by decide
    obtain ⟨hmodifier, hidentifier, hclass, hstruct, hparen⟩ := hother b.kind hb
    simp [hkind, hmodifier, hidentifier, hclass, hstruct, hparen]
  · have hword := lexeme_not_misread plain hname
    rw [misreadTypes, List.mem_cons, not_or] at hword
    change nextKind all (i + 1) = _ at hnext
    rw [hnext]
    simp [hkind, hword]

/-- A type is no word that another kind of member starts with. -/
theorem delivers_memberAfter {Q : MemberDecl → Prop} {head : MemberHead} {typeName : String}
    (hkind : ∀ s, s.Stands all i → s.current.kind ∈ typeStarts ∧ isConstructor typeName s = false)
    (h : Delivers all i j Q (do
      let type ← Parser.type
      match (← peek).kind with
      | .operatorKeyword | .thisKeyword => otherMember head
      | .identifier => memberNamed head type
      | _ => failExpecting "member name")) : Delivers all i j Q (memberAfter typeName head) := by
  refine .get fun s hs => ?_
  obtain ⟨hstart, hconstructor⟩ := hkind s hs
  rw [if_neg (by rw [hconstructor]; exact Bool.false_ne_true)]
  simp only [typeStarts, List.mem_cons, List.not_mem_nil, or_false] at hstart
  rcases hstart with hkind | hkind | hkind <;> rw [hkind] <;> exact h

/-- Behind its type a property is read from its name and its getter. -/
theorem delivers_memberNamed (ordered : Token.InOrder all) {ofGetter : List Token}
    (hname : NameTokens true name u) (hgetter : GetterTokens form getter ofGetter)
    (hu : all.drop i = u ++ (ofGetter ++ v)) (next : nextKind all (i + u.length + ofGetter.length) ≠ .equal)
    (head : MemberHead) (type : TypeSyntax) :
    Delivers all i (i + u.length + ofGetter.length)
      (IsCopy all (memberName name).name head.modifiers form getter) (memberNamed head type) := by
  have hbehind := drop_of_append hu
  obtain ⟨opening, tail, hopening, hstarts⟩ := hgetter.starts
  have hat : all.drop (i + u.length) = opening :: (tail ++ v) := by rw [hbehind, hopening, List.cons_append]
  have hnext := nextKind_of_drop hat
  have hend : nextKind all (i + u.length) ∉ nameGoesOn := by
    rw [hnext]
    rcases hstarts with hkind | hkind <;> rw [hkind] <;> decide
  refine (Delivers.of_consumes hname.consumes hu hend).bind fun name' hsame => .check .dot <| .kindAhead 1 ?_
  have hdot : opening.kind ≠ .dot := by rcases hstarts with hkind | hkind <;> rw [hkind] <;> decide
  rw [hnext, decide_eq_false hdot, Bool.false_and, if_neg Bool.false_ne_true]
  refine .peek (getElem?_of_drop hat) ?_
  have hcopy := hgetter.delivers ordered hbehind next head type name'
  have hident : (memberName name).unplaced = (memberName name').unplaced := memberName_congr hsame
  have hsameName : (memberName name).name = (memberName name').name := by simpa [Ident.unplaced] using hident
  rw [← hsameName] at hcopy
  rcases hstarts with hkind | hkind <;> rw [hkind] <;> exact hcopy

/-- A property is read from its tokens. -/
theorem delivers (ordered : Token.InOrder all) (h : PropertyTokens modifier type name form getter u)
    (hu : all.drop i = u ++ v) (next : nextKind all (i + u.length) ≠ .equal) (typeName : String) :
    Delivers all i (i + u.length) (IsCopy all (memberName name).name (modifiersOf [modifier]) form getter)
      (member typeDecl typeName) := by
  obtain ⟨⟨ofType, ofName, ofGetter, rfl, htype, hname, hgetter⟩, hmodifier, hplain⟩ := h
  obtain ⟨word, more, rfl, hword⟩ := htype.starts
  obtain ⟨first, rest, hfirst, hidentifier⟩ := hname.starts
  rw [List.cons_append, List.append_assoc, List.append_assoc] at hu
  have hbehind := drop_of_cons hu
  have htail := drop_of_append hbehind
  have hat : all.drop (i + 1 + (word :: more).length) = first :: (rest ++ (ofGetter ++ v)) := by
    rw [htail, hfirst, List.cons_append]
  have hnextName : nextKind all (i + 1 + (word :: more).length) = .identifier :=
    (nextKind_of_drop hat).trans hidentifier
  have hlength : i + (modifier :: (word :: more ++ (ofName ++ ofGetter))).length =
      i + 1 + (word :: more).length + ofName.length + ofGetter.length := by
    simp only [List.length_cons, List.length_append]
    omega
  have hread := fun (s : ParserState) (hs : s.Stands all (i + 1)) =>
    not_misread htype hword hbehind hplain hnextName hs
  have hfollows : followsModifier (nextKind all (i + 1)) = true := by
    rw [nextKind_of_append hbehind]
    exact (show ∀ kind ∈ typeStarts, followsModifier kind = true by decide) _ hword
  rw [hlength] at next ⊢
  have hhead : Delivers all i (i + 1) (fun head => head.attributes = [] ∧
      head.modifiers = modifiersOf [modifier]) memberHead :=
    delivers_memberHead (u := [modifier]) (List.forall_mem_singleton.2 (.inl hmodifier)) hu
      (List.cons_ne_nil _ _) hfollows fun s hs => (hread s hs).1
  refine hhead.bind fun head hread' => .get fun s hs => ?_
  obtain ⟨-, hmodifiers⟩ := hread'
  rw [if_neg (by rw [(hread s hs).2.1]; exact Bool.false_ne_true)]
  refine delivers_memberAfter (fun s hs => ⟨?_, (hread s hs).2.2 typeName⟩) ?_
  · rwa [current_of_stands hs (getElem?_of_drop hbehind)]
  refine (Delivers.of_consumes htype.reads hbehind (by rw [hnextName]; decide)).bind fun type' _ => ?_
  refine .peek (getElem?_of_drop hat) ?_
  rw [hidentifier, ← hmodifiers]
  exact delivers_memberNamed ordered hname hgetter htail next head type'

end PropertyTokens

end Graft.Parser
