/-
Module: Graft.Proofs.Parser.RepeatedGetters
Purpose: A getter is read again wherever its tokens stand.
Main exports: Parser.accessor_anew, GetterForm.Written

The body of an accessor is a group of braces, or an arrow with what stands up to a semicolon outside all
brackets.  How far either goes is told from its own tokens.
-/
import Graft.Proofs.Parser.Deliveries
import Graft.Proofs.Parser.Getters
import Graft.Proofs.Parser.RepeatedHeads

namespace Graft

namespace Parser

variable {α β : Type} {s t : ParserState} {p q : Parser α}

/-! ### Accessors -/

/-- A group of braces is passed again. -/
theorem block_anew (calm : s.panicking = false) (hbrace : s.current.kind = .leftBrace)
    (clean : s.skipGroup.errors = []) :
    ∃ u, s.unread = u ++ s.skipGroup.unread ∧ Repeats (fun body => body ≠ .missing) accessorBody u := by
  cases hcount : Skip.groupLength? 0 s.unread with
  | none =>
      rw [ParserState.skipGroup, hcount] at clean
      refine absurd clean ?_
      change ((s.pass s.unread.length).record _).errors ≠ []
      have hcalm : (s.pass s.unread.length).panicking = false := calm
      rw [ParserState.record, if_neg (by rw [hcalm]; exact Bool.false_ne_true)]
      simp [ParserState.report]
  | some n =>
      obtain ⟨hpos, hle⟩ := Skip.groupLength?_bounds hcount
      have hskip : s.skipGroup = s.pass n := by rw [ParserState.skipGroup, hcount]
      have hlength : (s.unread.take n).length = n := by
        rw [List.length_take]
        omega
      have hgroup : Skip.groupLength? 0 (s.unread.take n ++ s.unread.drop n) =
          some (s.unread.take n).length := by
        rw [List.take_append_drop, hcount, hlength]
      rw [hskip]
      refine ⟨s.unread.take n, (List.take_append_drop n _).symm, fun s' r hunread hclean => ?_⟩
      have hgroup' : Skip.groupLength? 0 s'.unread = some n := by
        rw [hunread, Skip.groupLength?_prefix hgroup, hlength]
      have hbehind := unread_pass hunread
      rw [hlength] at hbehind
      have hbrace' : s'.current.kind = .leftBrace := by
        obtain ⟨y, w, hw⟩ := List.exists_cons_of_ne_nil (List.ne_nil_of_length_pos (hlength ▸ hpos))
        have hunread' := (List.take_append_drop n s.unread).symm
        rw [hw] at hunread hunread'
        rw [kind_current hunread, ← kind_current hunread', hbrace]
      refine .of_eq (a := .block (s'.skipGroup.spanFrom s'.current.span)) (t := s'.pass n) ?_
        ⟨hbehind, hclean, AccessorBody.noConfusion⟩
      change (if s'.current.kind = .leftBrace then _ else _ : Parser AccessorBody) s' = _
      rw [if_pos hbrace']
      have hskip' : s'.skipGroup = s'.pass n := by rw [ParserState.skipGroup, hgroup']
      rw [← hskip']
      rfl

/-- An arrow is passed, and what is behind it up to a semicolon. -/
theorem arrowBody_eq_bind (s : ParserState) : arrowBody s = (do
    let _ ← expect .semicolon
    return ((s.pass 1).skipUntil [.semicolon]).spanFrom s.current.span : Parser Span)
      ((s.pass 1).skipUntil [.semicolon]) := rfl

/-- An arrow is read with what stands up to the first semicolon outside all brackets. -/
theorem arrowBody_eq {a x : Token} {w r : List Token} (hunread : s.unread = a :: w ++ x :: r)
    (hsemicolon : x.kind = .semicolon)
    (hlength : Skip.untilLength [.semicolon] 0 (w ++ x :: r) = .closed w.length) :
    arrowBody s = .ok ((s.pass (a :: w).length).spanFrom s.current.span)
      ((s.pass (a :: w).length).pass 1) := by
  have hinside : (s.pass 1).unread = w ++ x :: r := unread_cons hunread
  have hskip : (s.pass 1).skipUntil [.semicolon] = s.pass (a :: w).length := by
    rw [ParserState.skipUntil, hinside, hlength, pass_cons]
    rfl
  have hcurrent : (s.pass (a :: w).length).check .semicolon = true :=
    decide_eq_true ((congrArg Token.kind (current_of_unread (unread_pass hunread))).trans hsemicolon)
  rw [arrowBody_eq_bind, hskip]
  exact bind_eq (expect_eq hcurrent) _

/-- Where an arrow has been read, the tokens up to the semicolon are read so wherever they come. -/
theorem exists_of_arrowBody {span : Span} (harrow : s.current.kind = .arrow) (h : arrowBody s = .ok span t) :
    ∃ a w y, s.unread = a :: w ++ y :: t.unread ∧ a.kind = .arrow ∧ y.kind = .semicolon ∧
      ∀ x r, x.kind = .semicolon → Skip.untilLength [.semicolon] 0 (w ++ x :: r) = .closed w.length := by
  obtain ⟨a, hunread, -, ha⟩ := ParserState.exists_of_check (decide_eq_true harrow)
  rw [arrowBody_eq_bind] at h
  obtain ⟨_, v, hend, h⟩ := exists_of_bind h
  cases h
  obtain ⟨hsemicolon, rfl⟩ := check_of_expect hend
  obtain ⟨y, hbehind, -, hy⟩ := ParserState.exists_of_check hsemicolon
  have hdrop := hbehind
  rw [ParserState.skipUntil, ParserState.unread_passDistance] at hdrop
  obtain ⟨w, hsplit, hclosed⟩ := Skip.exists_of_untilLength hdrop
  refine ⟨a, w, y, by rw [hunread, hsplit]; rfl, ha, hy, fun x r hx => ?_⟩
  have hsame : (w ++ x :: r).map Token.kind = (w ++ y :: r).map Token.kind := by simp [hx, hy]
  rw [Skip.untilLength_congr hsame]
  exact hclosed r

/-- An arrow and what stands behind it up to the semicolon is passed again. -/
theorem arrow_anew {span : Span} (harrow : s.current.kind = .arrow) (h : arrowBody s = .ok span t) :
    ∃ u, s.unread = u ++ t.unread ∧ Repeats (fun body => body ≠ .missing) accessorBody u := by
  obtain ⟨a, w, y, hunread, ha, hy, hlength⟩ := exists_of_arrowBody harrow h
  refine ⟨a :: w ++ [y], by rw [hunread, List.append_assoc]; rfl, fun s' r hunread' hclean => ?_⟩
  rw [List.append_assoc] at hunread'
  have hrun := arrowBody_eq hunread' hy (hlength y r hy)
  refine .of_eq (a := AccessorBody.arrow ((s'.pass (a :: w).length).spanFrom s'.current.span)) ?_
    ⟨unread_pass_one (unread_pass hunread'), hclean, AccessorBody.noConfusion⟩
  have harrow' : s'.current.kind = .arrow := (kind_current hunread').trans ha
  change (if s'.current.kind = .leftBrace then _ else if s'.current.kind = .arrow then _ else _ :
    Parser AccessorBody) s' = _
  rw [if_neg (by rw [harrow']; decide), if_pos harrow']
  exact map_eq hrun _

/-- The body of an accessor that has one is read again. -/
theorem accessorBody_anew {body : AccessorBody} (calm : s.panicking = false)
    (h : accessorBody s = .ok body t) (clean : t.errors = []) (more : body ≠ .missing) :
    ∃ u, s.unread = u ++ t.unread ∧ Repeats (fun body => body ≠ .missing) accessorBody u := by
  change (if s.current.kind = .leftBrace then _ else if s.current.kind = .arrow then _ else _ :
    Parser AccessorBody) s = _ at h
  split at h
  · rename_i hbrace
    cases h
    exact block_anew calm hbrace clean
  · split at h
    · rename_i harrow
      obtain ⟨span, v, hrun, h⟩ := exists_of_bind (f := fun span => Pure.pure (AccessorBody.arrow span)) h
      cases h
      exact arrow_anew harrow hrun
    · obtain ⟨_, v, -, h⟩ := exists_of_bind h
      cases h
      exact absurd rfl more

/-- A name that is read is the next token. -/
theorem current_of_ident {name : Ident} (h : ident s = .ok name t) :
    s.current.kind = .identifier ∧ name = ⟨s.current.name, s.current.span⟩ ∧ t = s.pass 1 := by
  by_cases hkind : s.current.kind = .identifier
  · rw [ident_eq hkind] at h
    cases h
    exact ⟨hkind, rfl, rfl⟩
  · change (if s.current.kind ≠ .identifier then _ else _ : Parser Ident) s = _ at h
    rw [if_pos hkind] at h
    cases h

/-- A word that introduces an accessor is no modifier. -/
theorem not_contextual_of_accessor {token : Token} {kind : AccessorKind}
    (h : AccessorKind.ofKeyword? token.name = some kind) : token.lexeme ∉ contextualModifiers := by
  intro hmem
  simp only [contextualModifiers, List.mem_cons, List.not_mem_nil, or_false] at hmem
  have hname : token.name = token.lexeme := by
    rcases hmem with hlexeme | hlexeme | hlexeme | hlexeme <;> rw [Token.name, hlexeme] <;> rfl
  rw [hname] at h
  rcases hmem with hlexeme | hlexeme | hlexeme | hlexeme <;> rw [hlexeme] at h <;> cases h

/-- A getter in a source without errors is read again wherever its tokens come. -/
theorem accessor_anew {all : List Token} {i : Nat} {a : AccessorDecl} (hs : s.Stands all i)
    (h : accessor s = .ok a t) (clean : t.errors = []) (more : a.body ≠ .missing) :
    ∃ u, s.unread = u ++ t.unread ∧
    Repeats (fun a' => a'.kind = a.kind ∧ a'.body ≠ .missing) accessor u := by
  obtain ⟨head, v, hhead, h⟩ := exists_of_bind (p := memberHead) h
  obtain ⟨keyword, w, hkeyword, h⟩ := exists_of_bind (p := ident) h
  cases hkind : AccessorKind.ofKeyword? keyword.name with
  | none =>
      rw [hkind] at h
      cases h
  | some kind =>
      rw [hkind] at h
      obtain ⟨body, x, hbody, h⟩ := exists_of_bind (p := accessorBody) h
      cases h
      obtain ⟨hidentifier, rfl, rfl⟩ := current_of_ident hkeyword
      have hclean : (v.pass 1).errors = [] :=
        errors_eq_nil_of_keeps (MemberInvariant.accessorBody invariant_errors.toInvariant.body) hbody clean
      have calm : (v.pass 1).panicking = false := by
        obtain ⟨j, -, hstands, -⟩ := (Even.memberHead i s hs).of_ok hhead
        exact Bool.eq_false_iff.2 fun hpanic => hstands.tidy hpanic hclean
      obtain ⟨u, hu, hbodies⟩ := accessorBody_anew calm hbody clean more
      obtain ⟨k, hunread, hk, -⟩ := ParserState.exists_of_check (decide_eq_true hidentifier)
      obtain ⟨w, hw, hheads⟩ := again_memberHead hhead hclean hidentifier
        (show v.current.lexeme ∉ _ from not_contextual_of_accessor hkind) k _ hunread
      refine ⟨w ++ k :: u, by rw [hw, hu]; simp, fun s' r hunread' hclean' => ?_⟩
      obtain ⟨head', v', hhead', hv', hquiet⟩ := hheads s' (u ++ r) (by rw [hunread']; simp) hclean'
      have hcurrent : v'.current = v.current := (current_of_unread hv').trans hk
      obtain ⟨body', x', hbody', hx', hquiet', hmore⟩ :=
        (hbodies (v'.pass 1) r (unread_pass_one hv') hquiet).exists_ok
      have hident := ident_eq (s := v') (hcurrent ▸ hidentifier)
      refine .of_eq (a := ⟨kind, head'.modifiers, body', x'.spanFrom head'.start⟩) ?_
        ⟨hx', hquiet', rfl, hmore⟩
      refine (bind_eq hhead' _).trans ((bind_eq hident _).trans ?_)
      have hkind' : AccessorKind.ofKeyword? v'.current.name = some kind := hcurrent ▸ hkind
      dsimp only
      rw [hkind']
      exact bind_eq hbody' _

end Parser

/-! ### Getters -/

/-- Wherever these tokens stand they are read as a getter: an arrow with what stands up to the next
semicolon, or an accessor by itself. -/
def GetterForm.Written : GetterForm → List Token → Prop
  | .arrow, u => ∃ arrow w, u = arrow :: w ∧ arrow.kind = .arrow ∧
      ∀ x r, x.kind = .semicolon → Skip.untilLength [.semicolon] 0 (w ++ x :: r) = .closed w.length
  | .accessor, u => Parser.Repeats (fun a => a.kind = .get ∧ a.body ≠ .missing) Parser.accessor u

namespace GetterForm.Written

variable {all u u' v : List Token} {i : Nat}

/-- Tokens that differ in their places only are read alike. -/
theorem of_marks {form : GetterForm} (h : form.Written u) (marks : u'.map Token.mark = u.map Token.mark) :
    form.Written u' := by
  cases form with
  | arrow =>
      obtain ⟨arrow, w, rfl, harrow, hlength⟩ := h
      obtain ⟨arrow', w', rfl, hmark, hw⟩ := List.map_eq_cons_iff.1 marks
      have hkinds : w'.map Token.kind = w.map Token.kind := by
        have hfirst := congrArg (List.map Prod.fst) hw
        rwa [List.map_map, List.map_map] at hfirst
      have hsame : w'.length = w.length := by simpa using congrArg List.length hw
      refine ⟨arrow', w', rfl, (Token.kind_eq_of_mark hmark).trans harrow, fun x r hx => ?_⟩
      have hkinds' : (w' ++ x :: r).map Token.kind = (w ++ x :: r).map Token.kind := by
        rw [List.map_append, List.map_append, hkinds]
      rw [Skip.untilLength_congr hkinds', hsame]
      exact hlength x r hx
  | accessor =>
      refine Parser.Repeats.of_marks h Parser.Agrees.accessor (fun tokens => ?_) marks fun a a' related ha =>
        ?_
      · exact (Parser.MemberInvariant.accessor (ParserState.invariant_suffix tokens).body).keeps
      · have hsame : a.unplaced = a'.unplaced := related
        have hkind : a.unplaced.kind = a'.unplaced.kind := congrArg AccessorDecl.kind hsame
        have hbody : a.unplaced.body = a'.unplaced.body := congrArg AccessorDecl.body hsame
        change a.body.unplaced = a'.body.unplaced at hbody
        refine ⟨hkind.symm.trans ha.1, fun hmissing => ha.2 ?_⟩
        rw [hmissing] at hbody
        cases hshape : a.body with
        | missing => rfl
        | block _ | arrow _ =>
            rw [hshape] at hbody
            cases hbody

/-- An arrow and its expression are read before a semicolon. -/
theorem delivers_arrowBody (ordered : Token.InOrder all) (h : GetterForm.arrow.Written u) {x : Token}
    (hu : all.drop i = u ++ x :: v) (hx : x.kind = .semicolon) :
    Parser.Delivers all i (i + u.length + 1) (fun span => span.Over all i (i + u.length))
      Parser.arrowBody := by
  obtain ⟨arrow, w, rfl, harrow, hlength⟩ := h
  intro s hs clean
  have hrun := Parser.arrowBody_eq (hs.unread.trans hu) hx (hlength x v hx)
  have hpass : ∀ n, n ≤ (arrow :: w ++ [x]).length → (s.pass n).Stands all (i + n) := fun n hn => hs.pass (by
    have hinside := hs.inside
    have hall := congrArg List.length hu
    simp only [List.length_append, List.length_cons, List.length_drop, List.length_nil] at hall hn
    omega)
  have hfirst : s.current.span.Over all i (i + 1) := by
    have hat := Parser.getElem?_of_drop hu
    rw [Parser.current_of_stands hs hat]
    exact .single hat
  have hbehind : (s.pass (arrow :: w).length).Stands all (i + (arrow :: w).length) := hpass _ (by simp)
  refine .of_eq hrun ⟨?_, clean, hbehind.spanFrom ordered hfirst (by simp)⟩
  rw [ParserState.pass_pass]
  exact hpass ((arrow :: w).length + 1) (by simp)

/-- An accessor is read from its tokens. -/
theorem delivers_accessor (ordered : Token.InOrder all) (h : GetterForm.accessor.Written u)
    (hu : all.drop i = u ++ v) :
    Parser.Delivers all i (i + u.length)
      (fun a => a.kind = .get ∧ a.body ≠ .missing ∧ a.span.Over all i (i + u.length)) Parser.accessor :=
  (Parser.Delivers.of_repeats h (Parser.Reads.accessor_whole ordered) hu).mono fun _ ha =>
    ⟨ha.1.1, ha.1.2, ha.2.1⟩

end GetterForm.Written

/-! ### Getters of a source -/

/-- The getter stands where its span says, if there is one.  Its tokens can stand alone, and are read as a
getter wherever they do. -/
def PropertyDecl.Repeatable (all : List Token) (p : PropertyDecl) : Prop :=
  ∀ form span, p.getter? = some (form, span) →
    ∃ i j, span.Over all i j ∧ Token.Whole all i j ∧ form.Written (Token.between all i j)

variable {all : List Token} {i j : Nat}

/-- An arrow and its expression are read wherever they stand. -/
theorem Part.FitsArrow.written (h : FitsArrow all i j) (hlt : i < j) :
    GetterForm.arrow.Written (Token.between all i j) := by
  obtain ⟨⟨arrow, hat, harrow⟩, ⟨semicolon, hat', hsemicolon⟩, hlength⟩ := h
  have hle : j ≤ all.length := Nat.le_of_lt (List.getElem?_eq_some_iff.1 hat').1
  refine ⟨arrow, Token.between all (i + 1) j, ?_, harrow, fun x r hx => ?_⟩
  · rw [← Token.between_append (Nat.le_succ i) hlt, Token.between_single hat]
    rfl
  · have hdrop : all.drop (i + 1) = Token.between all (i + 1) j ++ semicolon :: all.drop (j + 1) := by
      rw [← Token.between_append_drop hlt]
      refine congrArg (Token.between all (i + 1) j ++ ·) ?_
      rw [List.drop_eq_getElem_cons (List.getElem?_eq_some_iff.1 hat').1,
        (List.getElem?_eq_some_iff.1 hat').2]
    rw [← Token.length_between hle, hdrop] at hlength
    have hsame : (Token.between all (i + 1) j ++ x :: r).map Token.kind =
        (Token.between all (i + 1) j ++ semicolon :: r).map Token.kind := by
      simp [hx, hsemicolon]
    rw [Skip.untilLength_congr hsame]
    exact Skip.untilLength_prefix hlength

namespace Parser.Reads

variable (ordered : Token.InOrder all)
include ordered

/-- An accessor with a body is read wherever its tokens stand. -/
theorem accessor_written :
    Reads all i (fun j a => a.span.Over all i j ∧ Token.Whole all i j ∧ (a.body ≠ .missing →
    Repeats (fun a' => a'.kind = a.kind ∧ a'.body ≠ .missing) Parser.accessor (Token.between all i j)))
      Parser.accessor := by
  intro s hs
  refine .intro (fun a t hrun => ?_) fun e t hrun => (accessor_whole ordered s hs).of_error hrun
  obtain ⟨j, hij, hj, hwhole⟩ := (accessor_whole ordered s hs).of_ok hrun
  refine ⟨j, hij, hj, fun clean => ⟨(hwhole clean).1, (hwhole clean).2.1, (hwhole clean).2.2,
    fun more => ?_⟩⟩
  obtain ⟨u, hu, hrepeats⟩ := accessor_anew hs hrun clean more
  rw [hs.unread, hj.unread] at hu
  rwa [Token.between_eq hu hj.inside]

theorem property_repeatable (head : MemberHead) (type : TypeSyntax) (name : NamedType) :
    Reads all i (fun _ m => m.Filled (PropertyDecl.Repeatable all)) (Parser.property head type name) := by
  refine property_getters (P := fun form span => ∃ i j, span.Over all i j ∧ Token.Whole all i j ∧
    form.Written (Token.between all i j)) head type name (fun harrow => ?_) fun j => ?_
  · refine (arrowBody ordered harrow).mono fun j span _ _ hat => ?_
    have hfits : Part.FitsArrow all i (j - 1) := hat.arrow.fits
    exact ⟨i, j - 1, hat.arrow.place, hfits.whole hat.lt, hfits.written hat.lt⟩
  · refine (accessor_written ordered).mono fun k a _ _ hwritten hget more => ?_
    obtain ⟨hplace, hwhole, hrepeats⟩ := hwritten
    rw [hget] at hrepeats
    exact ⟨j, k, hplace, hwhole, hrepeats more⟩

end Parser.Reads

/-- The getters of a source without errors are read as such wherever their tokens stand. -/
theorem SourceFile.repeatable_of_parse {source : SourceId} {text : String} {file : SourceFile}
    (h : SourceFile.parse source text = .ok file) :
    SyntaxNode.Properties (PropertyDecl.Repeatable (TokenStream.ofText text).tokens) file.nodes := by
  obtain ⟨t, hrun, herrors⟩ := exists_of_parse h
  have hproperty := fun (i : Nat) => Parser.Reads.property_repeatable (i := i) (TokenStream.inOrder text)
  obtain ⟨_, -, -, hfilled⟩ := (Parser.Reads.sourceFile_filled hproperty _ (.ofText source text)).of_ok hrun
  exact fun d hd => ((hfilled herrors).2 d hd).properties

end Graft
