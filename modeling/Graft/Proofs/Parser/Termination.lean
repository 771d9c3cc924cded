/-
Module: Graft.Proofs.Parser.Termination
Purpose: Reading comes to an end on all tokens.
Main exports: Parser.RecursionDescends, Parser.LoopsAdvance, Parser.SkippingAdvances,
  Parser.sourceFile_terminates

What cannot be read is reported and passed, and passing may stop where it starts: before a `}`.  The
loops that go on after an error look for the `}` themselves, or pass it as a stray token, so each of
their rounds still gets on.
-/
import Graft.Proofs.Parser.Progress

namespace Graft.Parser

variable {α ι : Type}

/-- A production is what `step` makes of itself, and it comes to itself only behind some token. -/
structure Recurs (p : ι → Parser α) (step : (ι → Parser α) → ι → Parser α) : Prop where
  descending : Descending step
  eq : ∀ i, p i = step p i

/-- A loop over the item: a round ends the loop, fails, or passes some token, and nothing else limits
the rounds. -/
structure Loops (item : Parser (Option α)) : Prop where
  advancing : Advancing item
  eq : many item = (do
    match ← item with
    | none => return []
    | some a => return a :: (← many item))

theorem Descending.recurs {step : (ι → Parser α) → ι → Parser α} (h : Descending step) :
    Recurs (fix step) step := ⟨h, fix_eq h⟩

theorem Advancing.loops {item : Parser (Option α)} (h : Advancing item) (forward : Forward item) :
    Loops item := ⟨h, many_eq forward h⟩

/-! ### Recursion

Of the four productions that occur inside themselves, each part that holds the inner occurrence does
with the same tokens the same if the inner occurrence does. -/

namespace Agree

variable {n : Nat}

section

variable {type type' : Parser TypeSyntax} (h : Agree n type type')
include h

theorem typeArgs : Agree n (typeArgs type) (typeArgs type') := by
  refine (refl (.expect _)).bind fun _ => (refl (.check _)).bind fun _ => (refl (.check _)).bind
    fun _ => .ite (fun _ => .refl fun _ => ?_) fun _ => h.separated.bind fun _ => .refl ?_
  · exact .bind (ParserState.invariant_suffix _).body.commas fun _ _ =>
      .bind (Forward.expect _ _) fun _ _ => .pure trivial
  · exact .bind (.expect _) fun _ => .pure

theorem typeSegment (withArgs : Bool) :
    Agree (n + 1) (typeSegment type withArgs) (typeSegment type' withArgs) := by
  refine .bind_passes .ident .ident fun _ => (refl (.check _)).bind fun _ =>
    .ite (fun _ => ?_) fun _ => .refl ?_
  · exact h.typeArgs.bind fun _ => .refl .pure
  · exact .bind .pure fun _ => .pure

theorem namedTypeOf (withArgs : Bool) :
    Agree (n + 1) (namedTypeOf type withArgs) (namedTypeOf type' withArgs) := by
  refine (refl .peek).bind fun _ => (refl (.check _)).bind fun _ =>
    (refl (.kindAhead _)).bind fun _ => ?_
  extract_lets rest rest'
  have hrest : ∀ qualifier?, Agree (n + 1) (rest qualifier?) (rest' qualifier?) := by
    refine fun _ => (h.typeSegment withArgs).bind fun _ => .bind (.many ?_) fun _ =>
      (refl (.spanFrom _)).bind fun _ => .refl .pure
    refine (refl (.check _)).bind fun _ => (refl (.kindAhead _)).bind fun _ =>
      .ite (fun _ => ?_) fun _ => .refl .pure
    exact (refl .advance).bind fun _ => (h.typeSegment withArgs).map
  refine .ite (fun _ => ?_) fun _ => (refl .pure).bind hrest
  exact (refl .ident).bind fun _ => (refl .advance).bind fun _ => (refl .pure).bind hrest

theorem tupleType : Agree (n + 1) (tupleType type) (tupleType type') := by
  refine .bind_passes (.expect _) (.expect (by decide)) fun _ => .bind (.separated ?_)
    fun _ => .refl (.bind (.expect _) fun _ => .bind (.spanFrom _) fun _ => .pure)
  exact h.bind fun _ => .refl (.bind (.whenever (.check _) .ident) fun _ => .pure)

theorem baseType : Agree (n + 1) (baseType type) (baseType type') := by
  refine (refl .peek).bind fun token => ?_
  split
  · exact .refl (.bind .advance fun _ => .pure)
  · exact h.tupleType
  · exact (h.namedTypeOf true).map
  · exact .refl fun tokens => (ParserState.invariant_suffix tokens).body.failAt _

theorem typeOf : Agree (n + 1) (typeOf type) (typeOf type') :=
  h.baseType.bind fun _ => .refl <| .bind
    (.many fun tokens => ((ParserState.invariant_suffix tokens).body.typeSuffix _).keeps) fun _ => .pure

end

section

variable {additive additive' : Parser Expr} (h : Agree n additive additive')
include h

theorem primary : Agree (n + 1) (primary additive) (primary additive') := by
  refine fun s hs => (Same.refl .peek s).bind fun token t htoken ht => ?_
  cases htoken
  refine .ite (fun hparen => ?_) fun _ => .refl ?_ s
  · have hlt : (s.pass 1).unread.length < s.unread.length :=
      ParserState.pass_lt_of_check (by decide) (decide_eq_true hparen)
    refine (Same.refl .advance s).bind fun _ t ht _ => ?_
    cases ht
    refine (h _ (Nat.lt_of_lt_of_le hlt (Nat.le_of_lt_succ hs))).bind fun _ u _ _ => ?_
    exact .refl (.bind (.expect _) fun _ => .bind (.spanFrom _) fun _ => .pure) u
  · have hnamed : ∀ withArgs, Forward (namedType withArgs) := fun withArgs tokens =>
      (ParserState.invariant_suffix tokens).body.namedType withArgs
    refine .bind .get fun _ => .ite (fun _ => ?_) fun _ => .ite (fun _ => (hnamed _).map) fun _ tokens =>
      (ParserState.invariant_suffix tokens).body.literal
    exact .bind .advance fun _ => .bind .advance fun _ => (hnamed _).bind fun _ =>
      .bind (.expect _) fun _ => .bind (.spanFrom _) fun _ => .pure

theorem unary : Agree (n + 1) (unary additive) (unary additive') :=
  (refl (.many (.eat? _))).bind fun _ => h.primary.bind fun _ => .refl .pure

theorem additiveOf : Agree (n + 1) (additiveOf additive) (additiveOf additive') :=
  h.unary.bind fun _ => (Agree.many (.whenever (.eat _) h.unary)).bind fun _ => .refl .pure

end

/-! Declarations are read by recovering from the errors of what they hold. -/

theorem recovering {p q : Parser α} (h : Agree n p q) (fallback : α) :
    Agree n (recovering fallback p) (recovering fallback q) := fun s hs =>
  (h s hs).tryCatch fun _ => .bind (fun tokens => .modify fun _ hs =>
    have stable := (ParserState.invariant_suffix tokens).toStable
    stable.synchronize (stable.record _ hs)) fun _ => .pure

section

variable {typeDecl typeDecl' : MemberHead → Parser TypeDecl}
  (h : ∀ head, Agree n (typeDecl head) (typeDecl' head))
include h

theorem member (typeName : String) : Agree n (member typeDecl typeName) (member typeDecl' typeName) := by
  refine (refl fun tokens => (ParserState.invariant_suffix tokens).body.memberHead).bind fun head =>
    (refl .get).bind fun _ => .ite (fun _ => (h head).map) fun _ => .refl fun tokens => ?_
  exact ((ParserState.invariant_suffix tokens).memberAfter (P := fun _ => True) typeName head).keeps

theorem typeMembers (kind : TypeKind) (typeName : String) :
    Agree n (typeMembers typeDecl kind typeName) (typeMembers typeDecl' kind typeName) := by
  refine (refl (.eat _)).bind fun _ => .ite (fun _ => .refl .pure) fun _ =>
    (refl (.expect _)).bind fun _ => ?_
  have hbody : Agree n (typeBody typeDecl typeName) (typeBody typeDecl' typeName) := by
    refine (Agree.many ?_).bind fun _ => .refl .pure
    refine (refl .atEnd).bind fun _ => (refl (.check _)).bind fun _ => .ite (fun _ => .refl .pure)
      fun _ => (refl (.eat _)).bind fun _ => .ite (fun _ => .refl .pure) fun _ => ?_
    exact (Agree.recovering (member h typeName).map _).map
  extract_lets rest
  have hrest : ∀ members, Forward (rest members) := fun _ =>
    .bind (fun tokens => (ParserState.invariant_suffix tokens).closingBrace) fun _ =>
      .bind (.eat _) fun _ => .pure
  exact .ite (fun _ => .refl (.bind (.skipUntil _) fun _ => .bind .pure hrest)) fun _ =>
    hbody.bind fun _ => .refl (hrest _)

theorem typeDeclOf (head : MemberHead) :
    Agree (n + 1) (typeDeclOf typeDecl head) (typeDeclOf typeDecl' head) := by
  refine (refl fun tokens => (ParserState.invariant_suffix tokens).newDeclId).bind fun _ =>
    (refl fun tokens => (ParserState.invariant_suffix tokens).typeKind).bind fun kind =>
      .bind_passes .ident .ident fun name => ?_
  refine (refl fun tokens => (ParserState.invariant_suffix tokens).body.typeParams.keeps).bind fun _ =>
    (refl fun tokens => (ParserState.invariant_suffix tokens).body.skipBases).bind fun _ => ?_
  exact (typeMembers h kind name.name).bind fun _ => (refl (.spanFrom _)).bind fun _ => .refl .pure

end

section

variable {space space' : Parser NamespaceDecl} (h : Agree n space space')
include h

theorem namespaceItem : Agree n (namespaceItem space) (namespaceItem space') := by
  refine (refl .get).bind fun _ => .ite (fun _ => ?_) fun _ => .ite (fun _ => ?_) fun _ =>
    .ite (fun _ => h.bind fun _ => .refl .pure) fun _ => .ite (fun _ => ?_) fun _ => ?_
  · exact .refl (.bind (fun tokens => (ParserState.invariant_suffix tokens).usingDirective) fun _ => .pure)
  · exact .refl (.bind (fun tokens => (ParserState.invariant_suffix tokens).body.attributeList)
      fun _ => .pure)
  · exact .refl (.bind .advance fun _ => .throw)
  · exact .refl (.bind (fun tokens => (ParserState.invariant_suffix tokens).namespaceType.keeps)
      fun _ => .pure)

theorem namespaceBody (braced : Bool) :
    Agree n (namespaceBody space braced) (namespaceBody space' braced) := by
  refine (Agree.many ?_).bind fun _ => .refl .pure
  exact (refl .atEnd).bind fun _ => (refl (.check _)).bind fun _ => .ite (fun _ => .refl .pure)
    fun _ => (h.namespaceItem.recovering _).map

theorem namespaceDeclOf : Agree (n + 1) (namespaceDeclOf space) (namespaceDeclOf space') := by
  refine .bind_passes (.expect _) (.expect (by decide)) fun _ => (refl .ident).bind fun _ =>
    (refl (.many (.whenever (.eat _) .ident))).bind fun _ => (refl (.eat _)).bind fun _ => ?_
  extract_lets rest
  have hrest : ∀ body, Forward (rest body) := fun _ => .bind (.spanFrom _) fun _ => .pure
  refine .ite (fun _ => (h.namespaceBody false).bind fun _ => .refl (hrest _)) fun _ => ?_
  exact (refl (.expect _)).bind fun _ => (h.namespaceBody true).bind fun _ =>
    .refl (.bind (fun tokens => (ParserState.invariant_suffix tokens).closingBrace) fun _ =>
      .bind (.eat _) fun _ => .bind .pure hrest)

end

end Agree

theorem type_recurs : Recurs (fun _ : Unit => type) fun inner _ => typeOf (inner ()) :=
  Descending.recurs fun _ _ _ h _ => (h ()).typeOf

theorem additive_recurs : Recurs (fun _ : Unit => additive) fun inner _ => additiveOf (inner ()) :=
  Descending.recurs fun _ _ _ h _ => (h ()).additiveOf

theorem typeDecl_recurs : Recurs typeDecl typeDeclOf :=
  Descending.recurs fun _ _ _ h head => Agree.typeDeclOf h head

theorem namespaceDecl_recurs :
    Recurs (fun _ : Unit => namespaceDecl) fun inner _ => namespaceDeclOf (inner ()) :=
  Descending.recurs fun _ _ _ h _ => (h ()).namespaceDeclOf

/-! ### Loops -/

/-- The arguments from the next one on, given how those behind a comma are read. -/
def argumentsOf (rest : Parser (List ArgumentSyntax)) : Parser (List ArgumentSyntax) := do
  if (← check .rightParen) || (← atEnd) then return []
  let value ← argument
  if ← eat .comma then return value :: (← rest) else return [value]

theorem Agree.argumentsOf {n : Nat} {rest rest' : Parser (List ArgumentSyntax)}
    (h : Agree n rest rest') : Agree (n + 1) (argumentsOf rest) (argumentsOf rest') := by
  refine (refl (.check _)).bind fun _ => (refl .atEnd).bind fun _ => .ite (fun _ => .refl .pure) fun _ =>
    (refl fun tokens => (ParserState.invariant_suffix tokens).body.argument).bind fun _ => ?_
  refine .eat (by decide) ?_ (.ite nofun fun _ => .refl .pure)
  exact .ite (fun _ => h.bind fun _ => .refl .pure) fun _ => .refl .pure

/-- An item of a file or a namespace, passed if it cannot be read, up to the end or a closing brace. -/
def namespaceRound (braced : Bool) : Parser (Option NamespaceBody) := do
  if (← atEnd) || (braced && (← check .rightBrace)) then return none
  else some <$> recovering .empty (namespaceItem namespaceDecl)

/-- A member of a type, passed if it cannot be read, up to the end or a closing brace. -/
def memberRound (typeName : String) : Parser (Option (Option MemberDecl)) := do
  if (← atEnd) || (← check .rightBrace) then return none
  else if ← eat .semicolon then return some none
  else some <$> recovering none (some <$> member typeDecl typeName)

/-- An accessor up to a closing brace, which is passed. -/
def accessorRound : Parser (Option AccessorDecl) := do
  if ← eat .rightBrace then return none else some <$> accessor

/-- A further segment of a dotted name. -/
def segmentRound (withArgs : Bool) : Parser (Option TypeSegment) := do
  if (← check .dot) && (← kindAhead 1) = .identifier then
    let _ ← advance
    some <$> typeSegment type withArgs
  else return none

/-- A further attribute of a list, which may end with a comma. -/
def attributeRound : Parser (Option AttributeSyntax) := do
  if ← eat .comma then
    if ← check .rightBracket then return none else some <$> attributeItem
  else return none

/-- An item that cannot be read is passed as far as it was read, and at least one token with it unless
the next one is a `}`. -/
theorem recovering_passes {item : Parser α} (forward : Forward item) (passes : Passes item)
    (fallback : α) {s : ParserState} (hend : s.atEnd = false)
    (stays : s.current.kind = .rightBrace → ∀ e t, item s = .error e t →
      t.unread.length < s.unread.length) :
    Outcome (fun _ t => t.unread.length < s.unread.length) (fun _ => False)
      (recovering fallback item) s := by
  refine Outcome.tryCatch (F := fun t => t.unread <:+ s.unread ∧ (s.current.kind = .rightBrace →
    t.unread.length < s.unread.length)) (.intro (fun a t h => (passes s).of_ok h) fun e t h =>
      ⟨(forward.suffix s).of_error h, fun hbrace => stays hbrace e t h⟩) fun e t _ ht => ?_
  refine .modify <| .pure ?_
  have hunread : (t.record e).unread = t.unread := ParserState.unread_record e
  by_cases hlt : t.unread.length < s.unread.length
  · have stable := (ParserState.invariant_suffix t.unread).toStable
    exact Nat.lt_of_le_of_lt (stable.synchronize (stable.record e List.suffix_rfl)).length_le hlt
  · -- nothing was passed before the error
    have heq := hunread.trans (ht.1.eq_of_length_le (Nat.le_of_not_lt hlt))
    obtain ⟨hend', hcurrent⟩ := ParserState.current_congr heq hend
    have hnext := ParserState.synchronize_lt _ hend' fun hbrace => hlt (ht.2 (hcurrent ▸ hbrace))
    rwa [heq] at hnext

/-! What a body holds passes tokens if it can be read. -/

/-- The members of a type end behind a `;` or a group of braces. -/
theorem memberInvariant_shorter (tokens : List Token) :
    MemberInvariant (fun s => s.unread <:+ tokens)
      (fun s => s.unread <:+ tokens ∧ s.unread.length < tokens.length) fun _ => True where
  toBodyInvariant := (ParserState.invariant_suffix tokens).body
  kept h := h.1
  semicolon h hkind := by
    have hlt := ParserState.pass_lt_of_check (by decide) (decide_eq_true hkind)
    exact ⟨(ParserState.invariant_suffix tokens).pass 1 h, Nat.lt_of_lt_of_le hlt h.length_le⟩
  braces h hkind := by
    have hlt := ParserState.skipGroup_lt _ (ParserState.atEnd_of_check (by decide) (decide_eq_true hkind))
    exact ⟨(ParserState.invariant_suffix tokens).toStable.skipGroup h, Nat.lt_of_lt_of_le hlt h.length_le⟩

namespace Passes

theorem accessors : Passes accessors :=
  .bind_left (.expect (by decide)) fun _ => .many <| .bind (.eat _) fun _ => .ite (fun _ => .pure)
    fun _ tokens => .map (MemberInvariant.accessor (ParserState.invariant_suffix tokens).body) fun _ _ =>
    trivial

theorem memberAfter (typeName : String) (head : MemberHead) : Passes (memberAfter typeName head) := by
  intro s
  refine ((memberInvariant_shorter s.unread).memberAfter (P := fun _ => True) List.suffix_rfl
    (fun _ _ _ u _ _ _ hu => ?_) typeName head).mono (fun _ _ h => h.1.2) fun _ _ => trivial
  have hforward := (ParserState.invariant_suffix s.unread).accessors u hu
  refine .intro (fun _ t h => ⟨(hforward.of_ok h).1, ?_⟩) fun _ t h => hforward.of_error h
  exact Nat.lt_of_lt_of_le ((accessors u).of_ok h) hu.length_le

theorem typeDecl (head : MemberHead) : Passes (typeDecl head) := by
  rw [typeDecl_recurs.eq head]
  refine .bind_right (fun tokens => (ParserState.invariant_suffix tokens).newDeclId) fun _ =>
    .bind_right (fun tokens => (ParserState.invariant_suffix tokens).typeKind) fun kind =>
      .bind_left .ident fun name tokens => ?_
  have inv := ParserState.invariant_suffix tokens
  exact .bind inv.body.typeParams.keeps fun _ _ => .bind inv.body.skipBases fun _ _ =>
    .bind (inv.typeMembers inv.typeDecl kind name.name).keeps fun _ _ => .bind (.spanFrom _) fun _ _ =>
      .pure trivial

theorem member (typeName : String) : Passes (member Parser.typeDecl typeName) :=
  .bind_right (fun tokens => (ParserState.invariant_suffix tokens).body.memberHead) fun head =>
    .bind_right .get fun _ => .ite (fun _ => (typeDecl head).map) fun _ => memberAfter typeName head

theorem namespaceType : Passes namespaceType := by
  refine .bind_right (fun tokens => (ParserState.invariant_suffix tokens).body.memberHead) fun head =>
    .bind_right .get fun _ => .ite (fun _ => (typeDecl head).map) fun _ => .ite (fun _ => ?_) fun _ =>
      .failAt _
  exact .bind_right (.skipUntil _) fun _ => .bind_left (.expect (by decide)) fun _ => .pure

theorem usingDirective : Passes usingDirective := by
  refine .bind_right .peek fun _ =>
    .bind_right (fun tokens => (ParserState.invariant_suffix tokens).eatWord? _) fun _ =>
      .bind_left (.expect (by decide)) fun _ tokens => ?_
  have inv := ParserState.invariant_suffix tokens
  exact .bind inv.usingKind fun _ _ => .bind inv.body.type fun _ _ => .bind (inv.expect _) fun _ _ =>
    .bind (.spanFrom _) fun _ _ => .pure trivial

theorem attributeList : Passes attributeList := by
  refine .bind_left (.expect (by decide)) fun _ => .bind .get fun s => ?_
  extract_lets rest
  have hitem : Forward attributeItem :=
    fun tokens => (ParserState.invariant_suffix tokens).body.attributeItem
  have hrest : ∀ target?, Forward (rest target?) := by
    refine fun _ => hitem.bind fun _ => .bind (.many ?_) fun _ => .bind (.expect _) fun _ =>
      .bind (.spanFrom _) fun _ => .pure
    exact .bind (.eat _) fun _ => .ite (fun _ => .bind (.check _) fun _ => .ite (fun _ => .pure) fun _ =>
      hitem.map) fun _ => .pure
  refine .ite (fun _ => ?_) fun _ => .bind .pure hrest
  exact .bind (.bind .advance fun _ => .pure) fun _ => .bind .advance fun _ => .bind .pure hrest

theorem namespaceDecl : Passes namespaceDecl := by
  rw [namespaceDecl_recurs.eq ()]
  refine .bind_left (.expect (by decide)) fun _ tokens => ?_
  have inv := ParserState.invariant_suffix tokens
  have hbody : ∀ braced, Keeps (fun s => s.unread <:+ tokens) (namespaceBody Parser.namespaceDecl braced) :=
    fun braced => (inv.namespaceBody inv.namespaceDecl braced).keeps
  refine .bind inv.body.ident.keeps fun _ _ =>
    .bind (Forward.many (.whenever (.eat _) .ident) tokens) fun _ _ => .bind (inv.eat _) fun _ _ => ?_
  extract_lets rest
  have hrest : ∀ body, Keeps (fun s => s.unread <:+ tokens) (rest body) := fun _ =>
    .bind (.spanFrom _) fun _ _ => .pure trivial
  refine .ite (fun _ => .bind (hbody _) fun _ _ => hrest _) fun _ => ?_
  exact .bind (inv.expect _) fun _ _ => .bind (hbody _) fun _ _ => .bind inv.closingBrace fun _ _ =>
    .bind (inv.eat _) fun _ _ => .bind (Q := fun _ => True) (.pure trivial) fun _ _ => hrest _

theorem namespaceItem : Passes (namespaceItem Parser.namespaceDecl) := by
  refine .bind_right .get fun _ => .ite (fun _ => usingDirective.bind_left fun _ => .pure) fun _ =>
    .ite (fun _ => attributeList.bind_left fun _ => .pure) fun _ =>
      .ite (fun _ => namespaceDecl.bind_left fun _ => .pure) fun _ =>
        .ite (fun _ => .bind_right .advance fun _ => .throw) fun _ => ?_
  exact namespaceType.bind_left fun _ => .pure

end Passes

/-- A stray `}` is passed. -/
theorem namespaceItem_stray {space : Parser NamespaceDecl} {s : ParserState}
    (h : s.current.kind = .rightBrace) : Outcome (fun _ _ => False)
      (fun t => t.unread.length < s.unread.length) (namespaceItem space) s := by
  have hlt := ParserState.pass_lt_of_check (by decide) (decide_eq_true h)
  have hcheck : ∀ kind, kind ≠ .rightBrace → s.check kind = false := fun kind hkind =>
    decide_eq_false fun heq => hkind (heq.symm.trans h)
  have husing : isUsing s = false := by
    simp [isUsing, hcheck, ParserState.checkWord, h]
  have hglobal : isGlobalAttribute s = false := by
    simp [isGlobalAttribute, hcheck]
  refine .get ?_
  rw [husing, hglobal, hcheck _ (by decide), show s.check .rightBrace = true from decide_eq_true h]
  have hnot : ∀ {p : Prop}, false = true → p := fun h => absurd h Bool.false_ne_true
  exact .ite hnot fun _ => .ite hnot fun _ => .ite hnot fun _ => .ite (fun _ => hlt) (absurd rfl)

/-- A round gets on, or it ends the loop at the end or before a closing brace to come. -/
theorem namespaceRound_outcome (braced : Bool) (s : ParserState) :
    Outcome (fun part? t => (part? = none → t.atEnd = true ∨ braced = true) ∧
      (part?.isSome → t.unread.length < s.unread.length)) (fun _ => False) (namespaceRound braced) s := by
  refine .atEnd <| .check <| .ite (fun hstop => .pure ⟨fun _ => ?_, by simp⟩) fun hgo => ?_
  · rw [Bool.or_eq_true, Bool.and_eq_true] at hstop
    exact hstop.imp_right And.left
  · have hend : s.atEnd = false := Bool.eq_false_iff.2 fun h => hgo (by rw [h]; rfl)
    have forward : Forward (namespaceItem namespaceDecl) := fun tokens =>
      have inv := ParserState.invariant_suffix tokens
      (inv.namespaceItem inv.namespaceDecl).keeps
    refine (recovering_passes forward .namespaceItem .empty hend fun hbrace e t h => ?_).map
      fun _ _ hlt => ⟨nofun, fun _ => hlt⟩
    exact (namespaceItem_stray hbrace).of_error h

theorem memberRound_advancing (typeName : String) : Advancing (memberRound typeName) := by
  refine fun s => .atEnd <| .check <| .ite (fun _ => .pure nofun) fun hgo => ?_
  rw [Bool.or_eq_true, not_or, Bool.not_eq_true] at hgo
  refine .eat (fun hcheck => .ite (fun _ => .pure fun _ => ?_) (absurd rfl)) fun _ => .ite nofun fun _ => ?_
  · exact ParserState.pass_lt_of_check (by decide) hcheck
  · have forward : Forward (member typeDecl typeName) := fun tokens =>
      have inv := ParserState.invariant_suffix tokens
      (inv.member inv.typeDecl typeName).keeps
    refine ((recovering_passes forward.map (Passes.member typeName).map none hgo.1 fun hbrace =>
      absurd (decide_eq_true hbrace) hgo.2).mono (fun _ _ h => h) fun _ h => h.elim).map
        fun _ _ hlt _ => hlt

theorem accessorRound_advancing : Advancing accessorRound := by
  refine fun s => .eat (fun _ => .ite (fun _ => .pure nofun) (absurd rfl)) fun _ => .ite nofun fun _ => ?_
  have hpasses : Passes accessor := by
    refine .bind_right (fun tokens => (ParserState.invariant_suffix tokens).body.memberHead) fun _ =>
      .bind_left .ident fun _ tokens => ?_
    split
    · exact .throw
    · exact .bind (MemberInvariant.accessorBody (ParserState.invariant_suffix tokens).body) fun _ _ =>
        .bind (.spanFrom _) fun _ _ => .pure trivial
  exact (hpasses s).map fun _ _ hlt _ => hlt

/-- An item that starts with a token that is there. -/
theorem advance_lt {f : Token → Parser α} (hf : ∀ t, Forward (f t)) {s : ParserState}
    {kind : TokenKind} (h : kind ≠ .endOfFile) (hcheck : s.check kind = true) :
    Outcome (fun _ t => t.unread.length < s.unread.length) (fun _ => True) (advance >>= f) s := by
  have hlt := ParserState.pass_lt_of_check h hcheck
  exact ((hf _).length_le (s.pass 1)).mono (fun _ _ hle => Nat.lt_of_le_of_lt hle hlt)
    fun _ _ => trivial

theorem typeSuffix_advancing (start : Span) : Advancing (typeSuffix start) := by
  refine fun s => .get <| .ite (fun h => ?_) fun _ => .ite (fun h => ?_) fun _ => .ite (fun h => ?_)
    fun _ => .pure nofun
  · exact (advance_lt (fun _ => .bind (.spanFrom _) fun _ => .pure) (by decide) h).mono
      (fun _ _ hlt _ => hlt) fun _ h => h
  · exact (advance_lt (fun _ => .bind (.spanFrom _) fun _ => .pure) (by decide) h).mono
      (fun _ _ hlt _ => hlt) fun _ h => h
  · rw [isRankSpecifier, Bool.and_eq_true] at h
    refine (advance_lt (fun _ => ?_) (by decide) h.1).mono (fun _ _ hlt _ => hlt) fun _ h => h
    exact .bind (fun tokens => (ParserState.invariant_suffix tokens).body.commas) fun _ =>
      .bind (.expect _) fun _ => .bind (.spanFrom _) fun _ => .pure

theorem modifier_advancing : Advancing (whenever (return isModifier (← get)) advance) := by
  refine fun s => .get <| .ite (fun h => ?_) fun _ => .pure nofun
  have hend : s.atEnd = false := by
    refine Bool.eq_false_iff.2 fun hend => ?_
    rw [isModifier, ParserState.current, ParserState.ahead, ParserState.atEnd_iff.1 hend] at h
    cases h
  exact fun _ => ParserState.pass_lt hend Nat.one_pos

theorem group_advancing : Advancing (whenever (check .leftBracket) skipGroup) :=
  fun s => .check <| .ite (fun h _ => s.skipGroup_lt (ParserState.atEnd_of_check (by decide) h))
    fun _ => .pure nofun

theorem segmentRound_advancing (withArgs : Bool) : Advancing (segmentRound withArgs) := by
  refine fun s => .check <| .kindAhead <| .ite (fun h => ?_) fun _ => .pure nofun
  rw [Bool.and_eq_true] at h
  refine (advance_lt (fun _ => Forward.map fun tokens => ?_) (by decide) h.1).mono
    (fun _ _ hlt _ => hlt) fun _ h => h
  have inv := ParserState.invariant_suffix tokens
  exact (inv.body.typeSegment inv.body.type withArgs).keeps

theorem attributeRound_advancing : Advancing attributeRound := by
  refine fun s => .eat (fun h => .ite (fun _ => .check <| .ite (fun _ => .pure nofun) fun _ => ?_)
    (absurd rfl)) fun _ => .ite nofun fun _ =>
      .pure nofun
  have hlt := ParserState.pass_lt_of_check (by decide) h
  have hitem : Forward attributeItem :=
    fun tokens => (ParserState.invariant_suffix tokens).body.attributeItem
  exact ((hitem.length_le _).mono (fun _ _ h => h) fun _ _ => trivial).map
    fun _ _ hle _ => Nat.lt_of_le_of_lt hle hlt

/-! ### All tokens -/

/-- The productions that occur inside themselves, in each place behind some token.  All others are made
of productions that stand before them. -/
structure RecursionDescends : Prop where
  type : Recurs (fun _ : Unit => type) fun inner _ => typeOf (inner ())
  additive : Recurs (fun _ : Unit => additive) fun inner _ => additiveOf (inner ())
  typeDecl : Recurs typeDecl typeDeclOf
  namespaceDecl : Recurs (fun _ : Unit => namespaceDecl) fun inner _ => namespaceDeclOf (inner ())

/-- The loops over what stands in files, namespaces, types and lists. -/
structure LoopsAdvance : Prop where
  namespaceBody : ∀ braced, Loops (namespaceRound braced) ∧
    namespaceBody namespaceDecl braced = (do return .concat (← many (namespaceRound braced)))
  typeBody : ∀ typeName, Loops (memberRound typeName) ∧
    typeBody typeDecl typeName = (do return (← many (memberRound typeName)).filterMap id)
  accessors : Loops accessorRound ∧
    accessors = (do let _ ← expect .leftBrace; many accessorRound)
  arguments : Recurs (fun _ : Unit => arguments) fun rest _ => argumentsOf (rest ())
  attributeLists : Loops (whenever (check .leftBracket) attributeList)
  signs : Loops (eat? .minus)
  summands : Loops (whenever (eat .plus) (unary additive))
  commas : Loops (eat? .comma)
  suffixes : ∀ start, Loops (typeSuffix start)
  modifiers : Loops (whenever (return isModifier (← get)) advance)
  typeParamGroups : Loops (whenever (check .leftBracket) skipGroup)
  namespaceNames : Loops (whenever (eat .dot) ident)
  typeSegments : ∀ withArgs, Loops (segmentRound withArgs)
  attributes : Loops attributeRound
  declarators : Loops (whenever (eat .comma) do variableAfter (← ident))
  events : Loops (whenever (eat .comma) do
    let name ← ident
    let _ ← initializer?
    return name)
  separated : ∀ {α : Type} {item : Parser α}, Forward item →
    separated item = (do
      let a ← item
      if ← eat .comma then return a :: (← separated item) else return [a])

/-- The loops that pass tokens, round by round, and that a round which goes on has passed tokens. -/
structure SkippingAdvances : Prop where
  pass : ∀ s : ParserState, s.atEnd = false → (s.pass 1).unread.length < s.unread.length
  passGroup : ∀ s : ParserState, s.atEnd = false → s.skipGroup.unread.length < s.unread.length
  skipGroup : ∀ s : ParserState, s.skipGroup = s.closeGroup 0
  closeGroup : ∀ (s : ParserState) (depth : Nat), s.closeGroup depth =
    if s.atEnd then s.record ⟨.unclosedGroup, s.current.span⟩
    else if Skip.depthAfter depth s.current = 0 then s.pass 1
    else (s.pass 1).closeGroup (Skip.depthAfter depth s.current)
  skipUntil : ∀ (s : ParserState) (terminators : List TokenKind), s.skipUntil terminators =
    if s.atEnd then s
    else if s.current.kind ∈ terminators ∨ s.current.kind.isCloser = true then s
    else if s.current.kind.isOpener then s.skipGroup.skipUntil terminators
    else (s.pass 1).skipUntil terminators
  synchronize : ∀ s : ParserState, s.synchronize = { s with panicking := false }.resume false
  resume : ∀ (s : ParserState) (moved : Bool), s.resume moved =
    if s.atEnd then s
    else if s.current.kind = .semicolon then s.pass 1
    else if s.current.kind = .rightBrace then s
    else if s.current.kind = .leftBrace then
      if s.skipGroup.check .semicolon then s.skipGroup.pass 1 else s.skipGroup
    else if s.current.kind.isOpener then s.skipGroup.resume true
    else if moved && Skip.startsDeclaration s.current.kind then s
    else (s.pass 1).resume true

theorem loopsAdvance : LoopsAdvance where
  namespaceBody braced := by
    refine ⟨Advancing.loops (fun s => (namespaceRound_outcome braced s).mono (fun _ _ h => h.2)
      fun _ h => h.elim) ?_, rfl⟩
    exact .bind .atEnd fun _ => .bind (.check _) fun _ => .ite (fun _ => .pure) fun _ =>
      .map fun tokens =>
        have inv := ParserState.invariant_suffix tokens
        inv.recovering trivial (inv.namespaceItem inv.namespaceDecl).keeps
  typeBody typeName := by
    refine ⟨(memberRound_advancing typeName).loops ?_, rfl⟩
    exact .bind .atEnd fun _ => .bind (.check _) fun _ => .ite (fun _ => .pure) fun _ =>
      .bind (.eat _) fun _ => .ite (fun _ => .pure) fun _ => .map fun tokens =>
        have inv := ParserState.invariant_suffix tokens
        inv.recovering trivial (.map (inv.member inv.typeDecl typeName) fun _ _ => trivial)
  accessors := by
    refine ⟨accessorRound_advancing.loops ?_, rfl⟩
    exact .bind (.eat _) fun _ => .ite (fun _ => .pure) fun _ => .map fun tokens =>
      MemberInvariant.accessor (ParserState.invariant_suffix tokens).body
  arguments := Descending.recurs fun _ _ _ h _ => (h ()).argumentsOf
  attributeLists := (Advancing.whenever (.check _) .attributeList).loops
    (.whenever (.check _) fun tokens => (ParserState.invariant_suffix tokens).body.attributeList)
  signs := (Advancing.eat? (by decide)).loops (.eat? _)
  summands :=
    have hunary : Forward (unary additive) := fun tokens =>
      have inv := ParserState.invariant_suffix tokens
      inv.body.unary inv.body.additive
    (Advancing.whenever_eat (by decide) hunary).loops (.whenever (.eat _) hunary)
  commas := (Advancing.eat? (by decide)).loops (.eat? _)
  suffixes start := (typeSuffix_advancing start).loops fun tokens =>
    ((ParserState.invariant_suffix tokens).body.typeSuffix start).keeps
  modifiers := modifier_advancing.loops (.whenever (.bind .get fun _ => .pure) .advance)
  typeParamGroups := group_advancing.loops (.whenever (.check _) .skipGroup)
  namespaceNames := (Advancing.whenever_eat (by decide) .ident).loops (.whenever (.eat _) .ident)
  typeSegments withArgs := by
    refine (segmentRound_advancing withArgs).loops ?_
    exact .bind (.check _) fun _ => .bind (.kindAhead _) fun _ => .ite (fun _ => .bind .advance fun _ =>
      .map fun tokens =>
        have inv := ParserState.invariant_suffix tokens
        (inv.body.typeSegment inv.body.type withArgs).keeps) fun _ => .pure
  attributes := by
    refine attributeRound_advancing.loops ?_
    exact .bind (.eat _) fun _ => .ite (fun _ => .bind (.check _) fun _ => .ite (fun _ => .pure)
      fun _ => .map fun tokens => (ParserState.invariant_suffix tokens).body.attributeItem) fun _ => .pure
  declarators :=
    have hvariable : Forward (do variableAfter (← ident)) := .bind .ident fun name tokens =>
      (ParserState.invariant_suffix tokens).body.variableAfter name
    (Advancing.whenever_eat (by decide) hvariable).loops (.whenever (.eat _) hvariable)
  events :=
    have hevent : Forward (do
        let name ← ident
        let _ ← initializer?
        return name) := .bind .ident fun _ => .bind (fun tokens =>
      (ParserState.invariant_suffix tokens).body.initializer?) fun _ => .pure
    (Advancing.whenever_eat (by decide) hevent).loops (.whenever (.eat _) hevent)
  separated := separated_eq

/-- Reading a source comes to an end, whatever tokens it has: no production comes to itself and no loop
comes round without passing some token.  All tokens are read then. -/
theorem sourceFile_terminates :
    RecursionDescends ∧ LoopsAdvance ∧ SkippingAdvances ∧
      ∀ s, ∃ file t, sourceFile s = .ok file t ∧ t.atEnd = true := by
  refine ⟨⟨type_recurs, additive_recurs, typeDecl_recurs, namespaceDecl_recurs⟩, loopsAdvance, ?_,
    fun s => ?_⟩
  · exact ⟨fun s h => ParserState.pass_lt h Nat.one_pos, ParserState.skipGroup_lt,
      ParserState.skipGroup_eq, ParserState.closeGroup_eq, ParserState.skipUntil_eq,
      ParserState.synchronize_eq, ParserState.resume_eq⟩
  · have hbody : Outcome (fun _ t => t.atEnd = true) (fun _ => False)
        (many (namespaceRound false)) s := by
      refine .many_of_progress (L := fun _ => True) (fun s _ => ?_) trivial
      refine (namespaceRound_outcome false s).mono (fun part? t h => ⟨fun hnone => ?_, fun hsome => ?_⟩)
        fun _ h => h
      · exact (h.1 hnone).resolve_right Bool.false_ne_true
      · exact ⟨trivial, h.2 hsome⟩
    have hfile : Outcome (fun _ t => t.atEnd = true) (fun _ => False) sourceFile s :=
      .get <| (hbody.bind fun _ _ _ h => .pure h : Outcome _ _ (namespaceBody namespaceDecl false) s).bind
        fun _ _ _ h => .pure h
    exact hfile.exists_ok

end Graft.Parser
