/-
Module: Graft.Proofs.Parser.TypeRoundTrip
Purpose: Which types are read back from their texts.
Main exports: Text.IsPlainIdentifier, Text.isName_iff, TokenStream.exists_not_isOfType,
  TypeSyntax.infix_display, TypeSyntax.type_display_iff

The text of a type ends with a question mark if the type is nullable, and two question marks in a row are
read as one operator, which belongs to no type.  So a type is read back from its text unless something
nullable in it is made nullable once more.
-/
import Mathlib.Data.List.Infix
import Graft.Proofs.Parser.TypeText
import Graft.Proofs.Parser.TypeTokens

namespace Graft

/-! ### Names -/

/-- The text is read as one identifier, which no `@` marks. -/
def Text.IsPlainIdentifier (text : String) : Prop :=
  (TokenStream.ofText text).tokens.map Token.mark = [(.identifier, text)] ∧ text.toList.head? ≠ some '@'

/-- No reserved word is of the class of the identifiers. -/
theorem Keyword.kind?_ne_identifier (word : String) : kind? word ≠ some .identifier := by
  have hstructural : ∀ entry ∈ structural, entry.2 ≠ .identifier := by decide
  unfold kind?
  cases hlookup : structural.lookup word with
  | some kind =>
      obtain ⟨front, back, hentries, -⟩ := List.lookup_eq_some_iff.1 hlookup
      exact fun heq => hstructural (word, kind) (by simp [hentries]) (Option.some.inj heq)
  | none =>
      change (if _ then _ else if _ then _ else if _ then _ else none : Option TokenKind) ≠ _
      split
      · exact fun heq => by cases heq
      split
      · exact fun heq => by cases heq
      split <;> exact fun heq => by cases heq

/-- The words that are not reserved are read as identifiers, and nothing else is. -/
theorem Text.isName_iff {text : String} : IsName text ↔ IsPlainIdentifier text := by
  have hword : IsWord text →
      (TokenStream.ofText text).tokens.map Token.mark = [((Keyword.kind? text).getD .identifier, text)] := by
    intro word
    obtain ⟨toks, stop, hstream, hmarks⟩ := TokenStream.ofText_of_spells
      (TokenStream.spells_word (W := text.toList) (v := []) word rfl)
    rw [hstream]
    exact hmarks
  constructor
  · rintro ⟨word, hfree⟩
    refine ⟨?_, ?_⟩
    · rw [hword word, hfree]
      rfl
    · obtain ⟨first, rest, htext, hfirst, -⟩ := word
      rw [htext]
      rintro hmark
      obtain rfl := Option.some.inj hmark
      revert hfirst
      decide
  · rintro ⟨hmarks, hunmarked⟩
    obtain ⟨t, ht, hmark⟩ := TokenStream.Marked.exists_token hmarks
    have hlexeme : t.lexeme = text := congrArg Prod.snd hmark
    have hname : t.name = text := by
      unfold Token.name
      rw [hlexeme]
      split
      · rename_i heq
        rw [heq] at hunmarked
        exact absurd rfl hunmarked
      · rfl
    have word := Token.isWord_name (ht ▸ List.mem_singleton_self t) (congrArg Prod.fst hmark)
    rw [hname] at word
    refine ⟨word, ?_⟩
    rw [hword word, List.cons.injEq, Prod.mk.injEq] at hmarks
    cases hreserved : Keyword.kind? text with
    | none => rfl
    | some kind =>
        rw [hreserved] at hmarks
        exact absurd (hreserved.trans (congrArg some hmarks.1.1)) (Keyword.kind?_ne_identifier text)

/-! ### Question marks in a row -/

/-- What starts with a character that does not occur in front stands behind it. -/
theorem Text.infix_of_append {x : Char} {y a b : List Char} (h : x ∉ a) (hin : x :: y <:+: a ++ b) :
    x :: y <:+: b := by
  induction a with
  | nil => exact hin
  | cons c rest ih =>
      rw [List.mem_cons, not_or] at h
      rcases List.infix_cons_iff.1 hin with hstart | hlater
      · exact absurd (List.cons_prefix_cons.1 hstart).1 h.1
      · exact ih h.2 hlater

namespace Operator

/-- A question mark is in no other operator that types are written with. -/
theorem eq_question_of_isOfType :
    ∀ entry ∈ table, entry.2.isOfType = true → '?' ∈ entry.1 → entry.1 = ['?'] := by
  decide

/-- Two question marks start an operator that types are not written with. -/
theorem match?_questions (rest : List Char) :
    ∃ lexeme, match? ('?' :: '?' :: rest) = some (lexeme, .punctuation) := by
  cases rest with
  | nil => exact ⟨_, rfl⟩
  | cons c rest =>
      by_cases hc : c = '='
      · subst hc
        exact ⟨_, rfl⟩
      · refine ⟨['?', '?'], ?_⟩
        simp [match?, table, triples, pairs, singles, List.isPrefixOf, Ne.symm hc]

end Operator

/-- The characters that comments, directives, strings and marked names start with. -/
def Text.openers : List Char := ['"', '\'', '@', '$', '/', '#']

/-- A piece that starts with none of the openers is a token that types are not written with, or two question
marks behind it stay. -/
theorem Piece.questions_of_plain {b : Bool} {first : Char} {rest : List Char}
    (plain : first ∉ Text.openers) :
    (∃ kind, (ofText b first rest).kind? = some kind ∧ kind.isOfType = false) ∨
      (['?', '?'] <:+: first :: rest → ['?', '?'] <:+: (first :: rest).drop
        (ofText b first rest).count) := by
  simp only [Text.openers, List.mem_cons, List.not_mem_nil, or_false, not_or] at plain
  obtain ⟨hquote, hchar, hat, hdollar, hslash, hhash⟩ := plain
  have hscan : ofText b first rest = scan first rest := by
    simp [ofText, List.isPrefixOf, Ne.symm hslash, hhash]
  have hpassed : ∀ count, '?' ∉ (first :: rest).take count → ['?', '?'] <:+: first :: rest →
      ['?', '?'] <:+: (first :: rest).drop count := by
    intro count hcount hin
    rw [← List.take_append_drop count (first :: rest)] at hin
    exact Text.infix_of_append hcount hin
  rw [hscan, scan]
  simp only [hquote, hchar, hat, hdollar, if_false, decide_false, Bool.or_false, Bool.false_eq_true]
  split
  · -- numbers
    refine .inl ⟨_, rfl, ?_⟩
    split <;> rfl
  split
  · -- words
    refine .inr (hpassed _ fun hmem => ?_)
    have htake : (first :: rest).take (word (first :: rest)).count =
        (first :: rest).takeWhile Text.isIdentContinue :=
      (List.prefix_iff_eq_take.1 (List.takeWhile_prefix _)).symm
    rw [htake] at hmem
    exact absurd (List.mem_takeWhile_imp hmem) (by decide)
  cases hmatch : Operator.match? (first :: rest) with
  | none =>
      refine .inr (hpassed 1 fun hmem => ?_)
      obtain rfl := List.mem_singleton.1 hmem
      have hfound : (['?'], TokenKind.question) ∈ Operator.table := by decide
      have hnone := List.find?_eq_none.1 hmatch _ hfound
      exact hnone (List.isPrefixOf_iff_prefix.2 ⟨rest, rfl⟩)
  | some entry =>
      obtain ⟨hmem, behind, hbehind⟩ := Operator.of_match?_eq_some hmatch
      cases hkind : entry.2.isOfType with
      | false => exact .inl ⟨_, rfl, hkind⟩
      | true =>
          refine .inr ?_
          dsimp only [token]
          by_cases hquestion : '?' ∈ entry.1
          · have hone := Operator.eq_question_of_isOfType entry hmem hkind hquestion
            rw [hone] at hbehind ⊢
            rw [List.singleton_append] at hbehind
            obtain ⟨rfl, rfl⟩ := List.cons.inj hbehind
            intro hin
            rcases List.infix_cons_iff.1 hin with hstart | hlater
            · -- the operator would be longer
              obtain ⟨w, hw⟩ := (List.cons_prefix_cons.1 hstart).2
              obtain ⟨lexeme, hlonger⟩ := Operator.match?_questions w
              rw [← hw, List.singleton_append, hlonger] at hmatch
              rw [← Option.some.inj hmatch] at hkind
              cases hkind
            · exact hlater
          · refine hpassed _ ?_
            rwa [← hbehind, List.take_left]

namespace TokenStream

/-- No question mark stands before a piece. -/
theorem question_not_mem_lead (text : List Char) : '?' ∉ text.take (leadLength text) := by
  have hblank : Text.isBlank '?' = false := by decide
  intro hmem
  unfold leadLength at hmem
  split at hmem
  · rename_i hmark
    obtain ⟨rest, rfl⟩ := List.head?_eq_some_iff.1 hmark
    rw [Nat.add_comm, List.take_succ_cons, List.drop_succ_cons, List.drop_zero, Number.runLength,
      ← List.prefix_iff_eq_take.1 (List.takeWhile_prefix _)] at hmem
    rcases List.mem_cons.1 hmem with heq | hmem
    · revert heq
      decide
    · rw [List.mem_takeWhile_imp hmem] at hblank
      cases hblank
  · rw [Nat.zero_add, List.drop_zero, Number.runLength,
      ← List.prefix_iff_eq_take.1 (List.takeWhile_prefix _)] at hmem
    rw [List.mem_takeWhile_imp hmem] at hblank
    cases hblank

/-- A text with two question marks in a row has a token that types are not written with. -/
theorem exists_not_isOfType {before : Cursor} (plain : ∀ x ∈ before.rest, x ∉ Text.openers)
    (h : ['?', '?'] <:+: before.rest) : ∃ t ∈ (ofCursor before).tokens, t.kind.isOfType = false := by
  induction before using ofCursor.induct with
  | case1 before c hrest =>
      rw [← List.take_append_drop (leadLength before.rest) before.rest] at h
      have hdrop : before.rest.drop (leadLength before.rest) = [] := (Cursor.rest_skip _ _).symm.trans hrest
      have hnil := Text.infix_of_append (question_not_mem_lead _) h
      rw [hdrop] at hnil
      cases List.infix_nil.1 hnil
  | case2 before c first rest hrest piece ih =>
      have hdrop : before.rest.drop (leadLength before.rest) = first :: rest :=
        (Cursor.rest_skip _ _).symm.trans hrest
      rw [← List.take_append_drop (leadLength before.rest) before.rest] at h
      have hin := Text.infix_of_append (question_not_mem_lead _) h
      rw [hdrop] at hin
      have hplain : ∀ x ∈ first :: rest, x ∉ Text.openers := fun x hx =>
        plain x (List.mem_of_mem_drop (hdrop ▸ hx))
      rw [ofCursor_of_rest_cons hrest]
      rcases Piece.questions_of_plain (b := c.lineIsBlank) (hplain first List.mem_cons_self) with
        ⟨kind, hkind, hother⟩ | hstays
      · refine ⟨tokenAt c piece.count kind, List.mem_append_left _ ?_, hother⟩
        rw [hkind]
        exact List.mem_singleton_self _
      · have hlater : (c.skip piece.count).rest = (first :: rest).drop piece.count := by
          rw [Cursor.rest_skip, hrest]
        obtain ⟨t, ht, hother⟩ := ih (fun x hx => hplain x (List.mem_of_mem_drop (hlater ▸ hx)))
          (hlater ▸ hstays hin)
        exact ⟨t, List.mem_append_right _ ht, hother⟩

end TokenStream

/-! ### The texts of types -/

namespace TypeSyntax

variable {τ : Type}

/-- The text of a list holds the texts of its items. -/
theorem infix_listed {separator : String} {text : τ → String} {texts : List τ → String}
    (one : ∀ x, texts [x] = text x)
    (more : ∀ x y rest, texts (x :: y :: rest) = text x ++ separator ++ texts (y :: rest)) {list : List τ}
    {x : τ} (mem : x ∈ list) : (text x).toList <:+: (texts list).toList := by
  induction list with
  | nil => cases mem
  | cons y rest ih =>
      cases rest with
      | nil =>
          rw [List.mem_singleton.1 mem, one]
      | cons z rest =>
          rw [more, String.toList_append, String.toList_append]
          rcases List.mem_cons.1 mem with rfl | mem
          · rw [List.append_assoc]
            exact (List.prefix_append _ _).isInfix
          · exact (ih mem).trans (List.suffix_append _ _).isInfix

/-- The characters of the text of a list are those of the separator and of the items. -/
theorem forall_listed {P : Char → Prop} {separator : String} {text : τ → String} {texts : List τ → String}
    (one : ∀ x, texts [x] = text x)
    (more : ∀ x y rest, texts (x :: y :: rest) = text x ++ separator ++ texts (y :: rest)) {list : List τ}
    (nonempty : list ≠ []) (between : ∀ c ∈ separator.toList, P c)
    (h : ∀ x ∈ list, ∀ c ∈ (text x).toList, P c) :
    ∀ c ∈ (texts list).toList, P c := by
  induction list with
  | nil => exact absurd rfl nonempty
  | cons x rest ih =>
      cases rest with
      | nil =>
          rw [one]
          exact h x List.mem_cons_self
      | cons y rest =>
          rw [more, String.toList_append, String.toList_append]
          refine List.forall_mem_append.2 ⟨List.forall_mem_append.2 ⟨h x List.mem_cons_self, between⟩, ?_⟩
          exact ih (List.cons_ne_nil _ _) fun z hz => h z (List.mem_cons_of_mem _ hz)

theorem displayElements_singleton (element : TupleElement TypeSyntax Ident) :
    displayElements [element] = displayElement element := by
  rw [displayElements]

theorem infix_displaySegment {segment : TypeSegment} {arg : TypeSyntax} (h : arg ∈ segment.args) :
    arg.display.toList <:+: (displaySegment segment).toList := by
  obtain ⟨name, args⟩ := segment
  cases args with
  | nil => cases h
  | cons first rest =>
      have hin := infix_listed displayArgs_singleton displayArgs_cons_cons h
      rw [displaySegment, String.toList_append, String.toList_append, String.toList_append]
      exact hin.trans ⟨_, _, rfl⟩

theorem infix_displaySegments (name : NamedType) :
    (displaySegments name.segments).toList <:+: (NamedType.display name).toList := by
  obtain ⟨alias?, segments, _⟩ := name
  cases alias? with
  | none => rw [NamedType.display]
  | some qualifier =>
      rw [NamedType.display, String.toList_append]
      exact (List.suffix_append _ _).isInfix

theorem infix_displayElement (element : TupleElement TypeSyntax Ident) :
    element.type.display.toList <:+: (displayElement element).toList := by
  obtain ⟨type, name?⟩ := element
  cases name? with
  | none => rw [displayElement]
  | some name =>
      rw [displayElement, String.toList_append, String.toList_append, List.append_assoc]
      exact (List.prefix_append _ _).isInfix

/-- The text of a type holds the texts of the types directly in it. -/
theorem infix_display_inner {type part : TypeSyntax} (h : part ∈ type.inner) :
    part.display.toList <:+: type.display.toList := by
  cases type with
  | predefined _ _ => cases h
  | named name =>
      obtain ⟨segment, hsegment, harg⟩ := List.mem_flatMap.1 h
      have hin := (infix_displaySegment harg).trans
        (infix_listed displaySegments_singleton displaySegments_cons_cons hsegment)
      rw [display]
      exact hin.trans (infix_displaySegments name)
  | array element _ _ =>
      obtain rfl := List.mem_singleton.1 h
      rw [display, String.toList_append, String.toList_append, String.toList_append, List.append_assoc,
        List.append_assoc]
      exact (List.prefix_append _ _).isInfix
  | nullable inner _ | pointer inner _ =>
      obtain rfl := List.mem_singleton.1 h
      rw [display, String.toList_append]
      exact (List.prefix_append _ _).isInfix
  | tuple elements _ =>
      obtain ⟨element, helement, rfl⟩ := List.mem_map.1 h
      have hin := (infix_displayElement element).trans
        (infix_listed displayElements_singleton displayElements_cons_cons helement)
      rw [display, String.toList_append, String.toList_append]
      exact hin.trans ⟨_, _, rfl⟩

/-- The text of a type holds the texts of all types in it. -/
theorem infix_display {type part : TypeSyntax} (h : part ∈ type.parts) :
    part.display.toList <:+: type.display.toList := by
  induction type using TypeSyntax.induct with
  | step type ih =>
      rw [parts_eq] at h
      rcases List.mem_cons.1 h with rfl | h
      · exact List.infix_rfl
      · obtain ⟨between, hbetween, hpart⟩ := List.mem_flatMap.1 h
        exact (ih between hbetween hpart).trans (infix_display_inner hbetween)

/-- The characters that stand between and around the words in the texts of types. -/
def marks : List Char := [' ', ',', '.', ':', '<', '>', '[', ']', '(', ')', '?', '*']

section

variable {P : Char → Prop} (continues : ∀ c, Text.isIdentContinue c = true → P c)
  (ofMarks : ∀ c ∈ marks, P c)

include continues in
theorem forall_word {word : String} (h : Text.IsWord word) : ∀ c ∈ word.toList, P c := by
  obtain ⟨first, rest, htext, hfirst, hrest⟩ := h
  rw [htext]
  exact List.forall_mem_cons.2 ⟨continues _ (Text.isIdentContinue_of_isIdentStart hfirst), fun c hc =>
    continues c (hrest c hc)⟩

include ofMarks in
theorem forall_marks {text : String} (h : text.toList.all (· ∈ marks) = true) :
    ∀ c ∈ text.toList, P c := fun c hc =>
  ofMarks c (of_decide_eq_true (List.all_eq_true.1 h c hc))

include continues ofMarks

theorem forall_displaySegment {segment : TypeSegment} (word : Text.IsWord segment.name.name)
    (h : ∀ arg ∈ segment.args, ∀ c ∈ arg.display.toList, P c) :
    ∀ c ∈ (displaySegment segment).toList, P c := by
  obtain ⟨name, args⟩ := segment
  cases args with
  | nil =>
      rw [displaySegment]
      exact forall_word continues word
  | cons arg args =>
      have hargs := forall_listed displayArgs_singleton displayArgs_cons_cons (List.cons_ne_nil arg args)
        (forall_marks ofMarks (by decide)) h
      rw [displaySegment, String.toList_append, String.toList_append, String.toList_append]
      simp only [List.forall_mem_append]
      exact ⟨⟨⟨forall_word continues word, forall_marks ofMarks (by decide)⟩, hargs⟩,
        forall_marks ofMarks (by decide)⟩

theorem forall_displayNamed {name : NamedType} (nonempty : name.segments ≠ [])
    (qualifier : ∀ i ∈ name.alias?, Text.IsWord i.name)
    (h : ∀ segment ∈ name.segments, ∀ c ∈ (displaySegment segment).toList, P c) :
    ∀ c ∈ (NamedType.display name).toList, P c := by
  obtain ⟨alias?, segments, _⟩ := name
  have hsegments := forall_listed displaySegments_singleton displaySegments_cons_cons nonempty
    (forall_marks ofMarks (by decide)) h
  cases alias? with
  | none =>
      rw [NamedType.display]
      exact hsegments
  | some i =>
      rw [NamedType.display, String.toList_append, String.toList_append]
      simp only [List.forall_mem_append]
      exact ⟨⟨forall_word continues (qualifier i rfl), forall_marks ofMarks (by decide)⟩, hsegments⟩

theorem forall_displayElement {element : TupleElement TypeSyntax Ident}
    (word : ∀ i ∈ element.name?, Text.IsWord i.name) (h : ∀ c ∈ element.type.display.toList, P c) :
    ∀ c ∈ (displayElement element).toList, P c := by
  obtain ⟨type, name?⟩ := element
  cases name? with
  | none =>
      rw [displayElement]
      exact h
  | some name =>
      rw [displayElement, String.toList_append, String.toList_append]
      simp only [List.forall_mem_append]
      exact ⟨⟨h, forall_marks ofMarks (by decide)⟩, forall_word continues (word name rfl)⟩

/-- The characters of the text of a type are those that words go on with, and the marks of types. -/
theorem forall_display {type : TypeSyntax} (h : type.Every (Formed Text.IsName)) :
    ∀ c ∈ type.display.toList, P c := by
  induction type using TypeSyntax.induct with
  | step type ih =>
      obtain ⟨formed, hinner⟩ := every_iff.1 h
      have hparts : ∀ part ∈ type.inner, ∀ c ∈ part.display.toList, P c := fun part hpart =>
        ih part hpart (hinner part hpart)
      cases type with
      | predefined keyword _ =>
          rw [display]
          exact forall_word continues (Keyword.word_predefined keyword formed).1
      | named name =>
          obtain ⟨nonempty, hqualifier, hnames⟩ := formed
          rw [display]
          exact forall_displayNamed continues ofMarks nonempty (fun i hi => (hqualifier i hi).1)
            fun segment hsegment => forall_displaySegment continues ofMarks (hnames segment hsegment).1
              fun arg harg => hparts arg (List.mem_flatMap.2 ⟨segment, hsegment, harg⟩)
      | array element rank _ =>
          rw [display, String.toList_append, String.toList_append, String.toList_append]
          simp only [List.forall_mem_append]
          refine ⟨⟨⟨hparts element (List.mem_singleton_self _), forall_marks ofMarks (by decide)⟩,
            fun c hc => ?_⟩, forall_marks ofMarks (by decide)⟩
          rw [String.toList_ofList] at hc
          rw [List.eq_of_mem_replicate hc]
          exact ofMarks ',' (by decide)
      | nullable inner _ | pointer inner _ =>
          rw [display, String.toList_append]
          exact List.forall_mem_append.2
            ⟨hparts inner (List.mem_singleton_self _), forall_marks ofMarks (by decide)⟩
      | tuple elements _ =>
          obtain ⟨nonempty, hnames⟩ := formed
          have helements := forall_listed displayElements_singleton displayElements_cons_cons nonempty
            (forall_marks ofMarks (by decide)) fun element helement =>
              forall_displayElement continues ofMarks (fun i hi => (hnames element helement i hi).1)
                (hparts element.type (List.mem_map.2 ⟨element, helement, rfl⟩))
          rw [display, String.toList_append, String.toList_append]
          simp only [List.forall_mem_append]
          exact ⟨⟨forall_marks ofMarks (by decide), helements⟩, forall_marks ofMarks (by decide)⟩

end

/-! ### Types that are read back -/

/-- The text of a type is read as the type, up to places, to its end and without errors. -/
def ReadsBack (source : SourceId) (type : TypeSyntax) : Prop :=
  ∃ other s, Parser.type (.ofText source type.display) = .ok other s ∧ s.atEnd = true ∧ s.errors = [] ∧
    type.unplaced = other.unplaced

/-- A text from which a type is read to its end consists of tokens that types are written with. -/
theorem isOfType_of_type {source : SourceId} {text : String} {type : TypeSyntax} {s : ParserState}
    (h : Parser.type (.ofText source text) = .ok type s) (atEnd : s.atEnd = true) :
    ∀ t ∈ (TokenStream.ofText text).tokens, t.kind.isOfType = true := by
  obtain ⟨passed, hpassed, hkinds⟩ := (Parser.Takes.type (.ofText source text)).of_ok h
  rw [List.isEmpty_iff.1 atEnd, List.append_nil] at hpassed
  rw [show (TokenStream.ofText text).tokens = passed from hpassed]
  exact hkinds.kinds

/-- A type whose text has two question marks in a row is not read back from it. -/
theorem not_readsBack_of_infix {type : TypeSyntax} (formed : type.Every (Formed Text.IsName))
    (h : ['?', '?'] <:+: type.display.toList) (source : SourceId) : ¬ReadsBack source type := by
  rintro ⟨other, s, hread, atEnd, -⟩
  have hplain : ∀ c ∈ (Cursor.ofText type.display.toList).rest, c ∉ Text.openers := by
    refine forall_display (fun c hc hopener => ?_) (by simp [marks, Text.openers]) formed
    have hall : Text.openers.all (!Text.isIdentContinue ·) = true := by decide
    have hother := List.all_eq_true.1 hall c hopener
    rw [hc] at hother
    cases hother
  obtain ⟨t, ht, hother⟩ := TokenStream.exists_not_isOfType hplain h
  rw [isOfType_of_type hread atEnd t ht] at hother
  cases hother

/-- A type is read back from its text exactly if nothing nullable in it is made nullable once more. -/
theorem type_display_iff {type : TypeSyntax} (formed : type.Every (Formed Text.IsPlainIdentifier))
    (source : SourceId) :
    ReadsBack source type ↔ ∀ inner span span', nullable (nullable inner span) span' ∉ type.parts := by
  have hformed : type.Every (Formed Text.IsName) := by
    rwa [show Text.IsName = Text.IsPlainIdentifier from funext fun text => propext Text.isName_iff]
  constructor
  · intro hread inner span span' hmem
    refine not_readsBack_of_infix hformed (List.IsInfix.trans ?_ (infix_display hmem)) source hread
    rw [display, display, String.toList_append, String.toList_append, List.append_assoc]
    exact (List.suffix_append _ _).isInfix
  · intro hsingle
    refine type_display (fun part hpart => ⟨hformed part hpart, ?_⟩) source
    rintro inner span rfl
    cases inner with
    | nullable _ _ => exact absurd hpart (hsingle _ _ _)
    | _ => rfl

/-- A type with a qualifier, type arguments, a tuple, an array, two nullables apart
and a pointer reads back. -/
theorem type_display_iff_nested :
    let type := pointer (nullable
      (named ⟨some ⟨"global", .nowhere⟩, [⟨⟨"A", .nowhere⟩, []⟩,
        ⟨⟨"B", .nowhere⟩, [tuple
          [⟨array (nullable (predefined "int" .nowhere) .nowhere) 2 .nowhere, some ⟨"c", .nowhere⟩⟩]
          .nowhere]⟩],
        .nowhere⟩) .nowhere) .nowhere
    type.Every (Formed Text.IsPlainIdentifier) ∧ type.display = "global::A.B<(int?[,] c)>?*" ∧
      ReadsBack ⟨0⟩ type := by
  intro type
  have hname : ∀ {text first rest}, text.toList = first :: rest → Text.isIdentStart first = true →
      rest.all Text.isIdentContinue = true → Keyword.kind? text = none → Text.IsPlainIdentifier text :=
    fun htext hfirst hrest hfree =>
      Text.isName_iff.1 ⟨⟨_, _, htext, hfirst, List.all_eq_true.1 hrest⟩, hfree⟩
  have hnames : Text.IsPlainIdentifier "global" ∧ Text.IsPlainIdentifier "A" ∧ Text.IsPlainIdentifier "B" ∧
      Text.IsPlainIdentifier "c" := by
    refine ⟨?_, ?_, ?_, ?_⟩ <;> exact hname rfl (by decide) (by decide) (by decide)
  have hformed : type.Every (Formed Text.IsPlainIdentifier) := by
    simp [type, Every, parts, NamedType.parts, segmentParts, TypeSegment.parts, argParts, elementParts,
      elementPart, Formed, hnames, Keyword.predefinedTypes]
  refine ⟨hformed, by decide, (type_display_iff hformed ⟨0⟩).2 fun inner span span' hmem => ?_⟩
  simp [type, parts, NamedType.parts, segmentParts, TypeSegment.parts, argParts, elementParts,
    elementPart] at hmem

/-- Two question marks behind a type are left over when it is read. -/
theorem not_readsBack_doubled :
    let type := nullable (nullable (predefined "int" .nowhere) .nowhere) .nowhere
    type.Every (Formed Text.IsPlainIdentifier) ∧ type.display = "int??" ∧ ¬ReadsBack ⟨0⟩ type := by
  intro type
  refine ⟨?_, by decide, not_readsBack_of_infix ?_ ⟨['i', 'n', 't'], [], by decide⟩ ⟨0⟩⟩
  all_goals simp [type, Every, parts, Formed, Keyword.predefinedTypes]

end TypeSyntax

end Graft
