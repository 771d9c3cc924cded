/-
Module: Graft.Proofs.Parser.TypeText
Purpose: Types are read back from their texts.
Main exports: TypeSyntax.Legible, TypeSyntax.spells_type, TypeSyntax.type_display

A text is put together from the texts of the parts of a type, each before a character that ends it.  So its
tokens are put together from those that the parts are read from.
-/
import Graft.Proofs.Parser.TypePhrases
import Graft.Proofs.Syntax.Formed
import Graft.Proofs.Token.Enclosed

namespace Graft

/-- The text is an identifier: a word that is not reserved. -/
def Text.IsName (text : String) : Prop := IsWord text ∧ Keyword.kind? text = none

/-- A word whose letters are looked at one by one. -/
theorem Text.isWord_of_all {word : String} (h : (word.toList.head?.any isIdentStart &&
    word.toList.tail.all isIdentContinue) = true) : IsWord word := by
  rw [Bool.and_eq_true] at h
  cases htext : word.toList with
  | nil =>
      rw [htext] at h
      cases h.1
  | cons first rest =>
      rw [htext] at h
      exact ⟨first, rest, htext, h.1, List.all_eq_true.1 h.2⟩

/-- The names of the built-in types are words of a class of their own. -/
theorem Keyword.word_predefined : ∀ keyword ∈ predefinedTypes,
    Text.IsWord keyword ∧ kind? keyword = some .predefinedType := by
  have htable : ∀ keyword ∈ predefinedTypes, (keyword.toList.head?.any Text.isIdentStart &&
      keyword.toList.tail.all Text.isIdentContinue) = true ∧ kind? keyword = some .predefinedType := by
    decide
  exact fun keyword hkeyword =>
    ⟨Text.isWord_of_all (htable keyword hkeyword).1, (htable keyword hkeyword).2⟩

namespace TypeSyntax

/-- The type is `inner?`. -/
def isNullable : TypeSyntax → Bool
  | nullable _ _ => true
  | _ => false

/-- The text of a type shows what it is made of: its names are no reserved words, and no two
question marks come together. -/
def Legible (type : TypeSyntax) : Prop :=
  type.Formed Text.IsName ∧ ∀ inner span, type = nullable inner span → inner.isNullable = false

end TypeSyntax

open Graft.Parser (Begins Listed SegmentTokens SegmentsTokens NameTokens ElementTokens)

namespace TokenStream

variable {W a b v : List Char} {τ : Type}

/-! ### Single tokens -/

/-- Some tokens are only one, of a class and with a text. -/
theorem Marked.exists_token {mark : TokenKind × String} {toks : List Token} (h : Marked [mark] toks) :
    ∃ t, toks = [t] ∧ t.mark = mark := by
  obtain ⟨t, rest, rfl, hmark, hrest⟩ := List.map_eq_cons_iff.1 h
  exact ⟨t, by rw [List.map_eq_nil_iff.1 hrest], hmark⟩

/-- A word that is not reserved spells an identifier with its name. -/
theorem spells_name {name : String} (h : Text.IsName name)
    (stop : v.head?.any Text.isIdentContinue = false) :
    Spells W name.toList v fun toks => ∃ t, toks = [t] ∧ t.kind = .identifier ∧ t.name = name := by
  refine (spells_word h.1 stop).mono fun toks hmarked => ?_
  obtain ⟨t, rfl, hmark⟩ := hmarked.exists_token
  rw [h.2] at hmark
  refine ⟨t, rfl, congrArg Prod.fst hmark, ?_⟩
  obtain ⟨first, rest, htext, hfirst, -⟩ := h.1
  have hlexeme : t.lexeme = name := congrArg Prod.snd hmark
  have hat : first ≠ '@' := by
    rintro rfl
    revert hfirst
    decide
  unfold Token.name
  rw [hlexeme, htext]
  split
  · rename_i heq
    exact absurd (List.cons.inj heq).1 hat
  · rfl

/-- A point spells itself before a word. -/
theorem spells_point {word : String} (h : Text.IsWord word) (v : List Char) :
    Spells W ".".toList (word.toList ++ v) (Marked [(.dot, ".")]) := by
  obtain ⟨first, rest, htext, hfirst, -⟩ := h
  refine spells_dot ?_
  rw [htext]
  exact Text.isDigit_of_isIdentStart hfirst

/-- Some text between two marks. -/
theorem spells_enclosed {x y : Char} {kind kind' : TokenKind} {lexeme lexeme' : String}
    {R : List Token → Prop} (hopening : Spells W [x] (a ++ y :: v) (Marked [(kind, lexeme)]))
    (hinside : Spells W a (y :: v) R) (hclosing : Spells W [y] v (Marked [(kind', lexeme')])) :
    Spells W (x :: (a ++ [y])) v fun toks =>
      ∃ t u t', toks = t :: (u ++ [t']) ∧ t.kind = kind ∧ R u ∧ t'.kind = kind' := by
  have hbehind : Spells W (a ++ [y]) v fun toks => ∃ u t', toks = u ++ [t'] ∧ R u ∧ t'.kind = kind' :=
    hinside.append hclosing fun u w hu hmarked => by
      obtain ⟨t', rfl, hmark⟩ := hmarked.exists_token
      exact ⟨u, t', rfl, hu, congrArg Prod.fst hmark⟩
  have hbefore : Spells W [x] ((a ++ [y]) ++ v) (Marked [(kind, lexeme)]) := by
    rwa [List.append_assoc]
  refine hbefore.append hbehind fun t w hmarked hw => ?_
  obtain ⟨t, rfl, hmark⟩ := hmarked.exists_token
  obtain ⟨u, t', rfl, hu, hkind⟩ := hw
  exact ⟨t, u, t', rfl, congrArg Prod.fst hmark, hu, hkind⟩

/-! ### Lists -/

/-- The text of a list starts with that of its first item. -/
theorem exists_texts_eq {separator : String} {text : τ → String} {texts : List τ → String}
    (one : ∀ x, texts [x] = text x)
    (more : ∀ x y rest, texts (x :: y :: rest) = text x ++ separator ++ texts (y :: rest)) (x : τ)
    (rest : List τ) :
    ∃ u, (texts (x :: rest)).toList = (text x).toList ++ u := by
  cases rest with
  | nil => exact ⟨[], by rw [one, List.append_nil]⟩
  | cons y rest =>
      refine ⟨separator.toList ++ (texts (y :: rest)).toList, ?_⟩
      rw [more, String.toList_append, String.toList_append, List.append_assoc]

/-- A list whose items stand before a separator, or before what comes behind the list. -/
theorem spells_listed {kind : TokenKind} {lexeme separator : String} {text : τ → String}
    {texts : List τ → String} {Phrase : τ → List Token → Prop} (one : ∀ x, texts [x] = text x)
    (more : ∀ x y rest, texts (x :: y :: rest) = text x ++ separator ++ texts (y :: rest)) {list : List τ}
    (nonempty : list ≠ [])
    (hseparator : ∀ x ∈ list, ∀ w, Spells W separator.toList ((text x).toList ++ w)
      (Marked [(kind, lexeme)]))
    (hitem : ∀ x ∈ list, ∀ w, w = v ∨ (∃ u, w = separator.toList ++ u) →
      Spells W (text x).toList w (Phrase x)) :
    Spells W (texts list).toList v (Listed kind Phrase list) := by
  induction list with
  | nil => exact absurd rfl nonempty
  | cons x rest ih =>
      cases rest with
      | nil =>
          rw [one]
          exact (hitem x List.mem_cons_self v (.inl rfl)).mono fun _ => .last
      | cons y rest =>
          have hrest := ih (List.cons_ne_nil _ _) (fun z hz => hseparator z (List.mem_cons_of_mem _ hz))
            fun z hz => hitem z (List.mem_cons_of_mem _ hz)
          obtain ⟨u, hu⟩ := exists_texts_eq one more y rest
          have hbetween := hseparator y (by simp) (u ++ v)
          rw [← List.append_assoc, ← hu] at hbetween
          have hlater : Spells W (separator.toList ++ (texts (y :: rest)).toList) v fun toks =>
              ∃ t u, toks = t :: u ∧ t.kind = kind ∧ Listed kind Phrase (y :: rest) u :=
            hbetween.append hrest fun t u hmark hlist => by
              obtain ⟨t, rfl, hmark'⟩ := hmark.exists_token
              exact ⟨t, u, rfl, congrArg Prod.fst hmark', hlist⟩
          rw [more, String.toList_append, String.toList_append, List.append_assoc]
          refine (hitem x List.mem_cons_self _ (.inr ⟨_, List.append_assoc _ _ _⟩)).append hlater ?_
          rintro t _ hfirst ⟨between, u, rfl, hkind, hlist⟩
          exact .more hfirst hkind hlist

/-! ### Types -/

/-- What may stand behind a type. -/
def EndsType (v : List Char) : Prop := ∀ c ∈ v.head?, c ∈ [' ', ',', ')', '>', '[', '*', '?']

theorem EndsType.cons {c : Char} (h : c ∈ [' ', ',', ')', '>', '[', '*', '?']) (v : List Char) :
    EndsType (c :: v) :=
  fun _ hc => Option.some.inj hc ▸ h

theorem EndsType.stop (h : EndsType v) : v.head?.any Text.isIdentContinue = false := by
  cases v with
  | nil => rfl
  | cons c rest =>
      have hall := List.all_eq_true.1 (show [' ', ',', ')', '>', '[', '*', '?'].all
        (fun c => !Text.isIdentContinue c) = true by decide) c (h c rfl)
      simpa using hall

end TokenStream

namespace TypeSyntax

open TokenStream (Spells Marked EndsType)

variable {W v : List Char}

/-- The text of a type is spelled wherever it may end. -/
def SpelledOut (W : List Char) (type : TypeSyntax) : Prop :=
  ∀ v, EndsType v → (type.isNullable = true → v.head? ≠ some '?') →
    Spells W type.display.toList v (Begins type)

/-! ### What types start with -/

/-- What a type starts with: a word or a parenthesis. -/
def StartsType (text : List Char) : Prop :=
  ∃ first rest, text = first :: rest ∧ (Text.isIdentStart first = true ∨ first = '(')

namespace StartsType

theorem of_word {word : String} (h : Text.IsWord word) : StartsType word.toList := by
  obtain ⟨first, rest, htext, hfirst, -⟩ := h
  exact ⟨first, rest, htext, .inl hfirst⟩

theorem append {text : List Char} (h : StartsType text) (more : List Char) : StartsType (text ++ more) := by
  obtain ⟨first, rest, rfl, hfirst⟩ := h
  exact ⟨first, rest ++ more, rfl, hfirst⟩

/-- No operator goes on with the first character of a type, and no mark of the byte order is it. -/
theorem head?_ne {text : List Char} (h : StartsType text) {c : Char} (hc : c ∈ ['<', '=', '\ufeff']) :
    text.head? ≠ some c := by
  obtain ⟨first, rest, rfl, hfirst⟩ := h
  have hother : Text.isIdentStart c = false ∧ c ≠ '(' := by
    simp only [List.mem_cons, List.not_mem_nil, or_false] at hc
    rcases hc with rfl | rfl | rfl
    · exact ⟨by decide, by decide⟩
    · exact ⟨by decide, by decide⟩
    · exact ⟨Text.isIdentStart_mark, by decide⟩
  intro heq
  obtain rfl : first = c := Option.some.inj heq
  rcases hfirst with hfirst | hfirst
  · rw [hother.1] at hfirst
    cases hfirst
  · exact hother.2 hfirst

/-- A comma and a blank before what starts as a type does. -/
theorem spells_comma {text : List Char} (h : StartsType text) :
    Spells W ", ".toList text (Marked [(.comma, ",")]) := by
  have hblank : Spells W [' '] text (Marked []) := TokenStream.spells_lead (by decide) (h.head?_ne (by simp))
  exact Spells.marked (a := [',']) (b := [' ']) (m := [(.comma, ",")])
    (TokenStream.spells_mark (by simp)) hblank

end StartsType

/-- The text of a segment starts with its name. -/
theorem exists_displaySegment_eq (segment : TypeSegment) :
    ∃ more, (displaySegment segment).toList = segment.name.name.toList ++ more := by
  obtain ⟨name, args⟩ := segment
  cases args with
  | nil => exact ⟨[], by rw [displaySegment, List.append_nil]⟩
  | cons arg args =>
      exact ⟨_, by rw [displaySegment, String.toList_append, String.toList_append, String.toList_append,
        List.append_assoc, List.append_assoc]⟩

/-- Segments start with the first name. -/
theorem startsType_displaySegments {segments : List TypeSegment} (nonempty : segments ≠ [])
    (names : ∀ segment ∈ segments, Text.IsWord segment.name.name) :
    StartsType (displaySegments segments).toList := by
  cases segments with
  | nil => exact absurd rfl nonempty
  | cons first rest =>
      obtain ⟨more, hmore⟩ := exists_displaySegment_eq first
      have hfirst : StartsType (displaySegment first).toList := by
        rw [hmore]
        exact (StartsType.of_word (names first List.mem_cons_self)).append more
      cases rest with
      | nil =>
          rw [displaySegments_singleton]
          exact hfirst
      | cons _ _ =>
          rw [displaySegments_cons_cons, String.toList_append, String.toList_append, List.append_assoc]
          exact hfirst.append _

theorem startsType_display {type : TypeSyntax} (h : type.Every Legible) :
    StartsType type.display.toList := by
  induction type using TypeSyntax.induct with
  | step type ih =>
      obtain ⟨⟨formed, -⟩, hinner⟩ := every_iff.1 h
      cases type with
      | predefined keyword _ =>
          rw [display]
          exact .of_word (Keyword.word_predefined keyword formed).1
      | named name =>
          obtain ⟨alias?, segments, _⟩ := name
          obtain ⟨nonempty, hqualifier, hnames⟩ := formed
          rw [display]
          cases alias? with
          | some qualifier =>
              rw [NamedType.display, String.toList_append, String.toList_append, List.append_assoc]
              exact (StartsType.of_word (hqualifier qualifier rfl).1).append _
          | none =>
              rw [NamedType.display]
              exact startsType_displaySegments nonempty fun segment hsegment => (hnames segment hsegment).1
      | array element _ _ =>
          rw [display, String.toList_append, String.toList_append, String.toList_append, List.append_assoc,
            List.append_assoc]
          exact (ih element (List.mem_singleton_self _) (hinner element (List.mem_singleton_self _))).append
            _
      | nullable inner _ | pointer inner _ =>
          rw [display, String.toList_append]
          exact (ih inner (List.mem_singleton_self _) (hinner inner (List.mem_singleton_self _))).append _
      | tuple elements _ =>
          rw [display, String.toList_append, String.toList_append]
          exact ⟨'(', _, rfl, .inr rfl⟩

/-- Type arguments start as the first of them does. -/
theorem startsType_displayArgs {args : List TypeSyntax} (nonempty : args ≠ [])
    (legible : ∀ arg ∈ args, arg.Every Legible) : StartsType (displayArgs args).toList := by
  cases args with
  | nil => exact absurd rfl nonempty
  | cons arg args =>
      have hfirst := startsType_display (legible arg List.mem_cons_self)
      cases args with
      | nil =>
          rw [displayArgs_singleton]
          exact hfirst
      | cons _ _ =>
          rw [displayArgs_cons_cons, String.toList_append, String.toList_append, List.append_assoc]
          exact hfirst.append _

/-! ### Types by their parts -/

theorem SpelledOut.predefined {keyword : String} {span : Span} (h : keyword ∈ Keyword.predefinedTypes) :
    SpelledOut W (.predefined keyword span) := fun v ends _ => by
  obtain ⟨word, hkind⟩ := Keyword.word_predefined keyword h
  rw [display]
  refine (TokenStream.spells_word word ends.stop).mono fun toks hmarked => ?_
  obtain ⟨t, rfl, hmark⟩ := hmarked.exists_token
  rw [hkind] at hmark
  exact Parser.begins_predefined hmark

theorem SpelledOut.array {element : TypeSyntax} {rank : Nat} {span : Span} (h : SpelledOut W element)
    (hrank : 0 < rank) :
    SpelledOut W (.array element rank span) := fun v _ _ => by
  have hcommas : ∀ (n : Nat) (w : List Char), Spells W (List.replicate n ',') w fun toks =>
      toks.length = n ∧ ∀ t ∈ toks, t.kind = .comma := by
    intro n w
    induction n with
    | zero => exact .nil ⟨rfl, nofun⟩
    | succ n ih =>
        have hcomma : Spells W [','] (List.replicate n ',' ++ w) (Marked [(.comma, ",")]) :=
          TokenStream.spells_mark (by simp)
        refine hcomma.append ih fun t u hmarked hrest => ?_
        obtain ⟨t, rfl, hmark⟩ := hmarked.exists_token
        exact ⟨congrArg (· + 1) hrest.1, List.forall_mem_cons.2 ⟨congrArg Prod.fst hmark, hrest.2⟩⟩
  have hopening : ∀ w, Spells W ['['] w (Marked [(.leftBracket, "[")]) :=
    fun _ => TokenStream.spells_mark (by simp)
  have hclosing : Spells W [']'] v (Marked [(.rightBracket, "]")]) := TokenStream.spells_mark (by simp)
  have hsuffix := TokenStream.spells_enclosed (hopening _) (hcommas (rank - 1) (']' :: v)) hclosing
  have htext : (TypeSyntax.array element rank span).display.toList =
      element.display.toList ++ '[' :: (List.replicate (rank - 1) ',' ++ [']']) := by
    rw [display, String.toList_append, String.toList_append, String.toList_append, List.append_assoc,
      List.append_assoc, String.toList_ofList, String.toList_ofList]
    rfl
  rw [htext]
  refine (h _ (.cons (by decide) _) fun _ => by simp).append hsuffix fun t w hbegins hw => ?_
  obtain ⟨a, u, b, rfl, ha, ⟨hlength, hall⟩, hb⟩ := hw
  exact Parser.begins_array hbegins ha hall hb (by omega)

theorem SpelledOut.nullable {inner : TypeSyntax} {span : Span} (h : SpelledOut W inner)
    (single : inner.isNullable = false) : SpelledOut W (.nullable inner span) := fun v _ stop => by
  rw [display, String.toList_append]
  refine (h _ (.cons (by decide) _) fun hnullable => by rw [single] at hnullable; cases hnullable).append
    (TokenStream.spells_question (stop rfl)) fun t w hbegins hmarked => ?_
  obtain ⟨a, rfl, hmark⟩ := hmarked.exists_token
  exact Parser.begins_nullable hbegins (congrArg Prod.fst hmark)

theorem SpelledOut.pointer {inner : TypeSyntax} {span : Span} (h : SpelledOut W inner) :
    SpelledOut W (.pointer inner span) := fun v ends _ => by
  rw [display, String.toList_append]
  have hstar : v.head? ≠ some '=' := fun heq => by
    have hmem := ends '=' heq
    revert hmem
    decide
  refine (h _ (.cons (by decide) _) fun _ heq => absurd (Option.some.inj heq) (by decide)).append
    (TokenStream.spells_star hstar) fun t w hbegins hmarked => ?_
  obtain ⟨a, rfl, hmark⟩ := hmarked.exists_token
  exact Parser.begins_pointer hbegins (congrArg Prod.fst hmark)

/-- The type arguments of a segment before the bracket that closes them. -/
theorem spells_args {args : List TypeSyntax} (nonempty : args ≠ [])
    (legible : ∀ arg ∈ args, arg.Every Legible) (h : ∀ arg ∈ args, SpelledOut W arg) (v : List Char) :
    Spells W (displayArgs args).toList ('>' :: v) (Listed .comma Begins args) := by
  refine TokenStream.spells_listed displayArgs_singleton displayArgs_cons_cons nonempty
    (fun arg harg w => ((startsType_display (legible arg harg)).append w).spells_comma) fun arg harg w hw =>
    ?_
  rcases hw with rfl | ⟨u, rfl⟩
  · exact h arg harg _ (.cons (by decide) v) fun _ => by simp
  · exact h arg harg _ (.cons (by decide) (' ' :: u)) fun _ heq => absurd (Option.some.inj heq) (by decide)

theorem spells_segment {segment : TypeSegment} (name : Text.IsName segment.name.name)
    (legible : ∀ arg ∈ segment.args, arg.Every Legible) (h : ∀ arg ∈ segment.args, SpelledOut W arg)
    (stop : v.head?.any Text.isIdentContinue = false) :
    Spells W (displaySegment segment).toList v (SegmentTokens true segment) := by
  obtain ⟨ident, args⟩ := segment
  cases args with
  | nil =>
      rw [displaySegment]
      refine (TokenStream.spells_name name stop).mono fun toks htoks => ?_
      obtain ⟨t, rfl, hkind, hname⟩ := htoks
      exact .plain hkind hname
  | cons arg args =>
      have hargs := spells_args (List.cons_ne_nil arg args) legible h v
      have hstarts := (startsType_displayArgs (List.cons_ne_nil arg args) legible).append ('>' :: v)
      have hgreater : Spells W ['>'] v (Marked [(.greater, ">")]) := TokenStream.spells_mark (by simp)
      have hbehind := TokenStream.spells_enclosed
        (TokenStream.spells_less ⟨hstarts.head?_ne (by simp), hstarts.head?_ne (by simp)⟩) hargs hgreater
      have htext : (displaySegment ⟨ident, arg :: args⟩).toList =
          ident.name.toList ++ '<' :: ((displayArgs (arg :: args)).toList ++ ['>']) := by
        rw [displaySegment, String.toList_append, String.toList_append, String.toList_append,
          List.append_assoc, List.append_assoc]
        rfl
      rw [htext]
      refine (TokenStream.spells_name name rfl).append hbehind fun t w ht hw => ?_
      obtain ⟨t, rfl, hkind, hname⟩ := ht
      obtain ⟨a, u, b, rfl, ha, hu, hb⟩ := hw
      exact .generic hkind hname ha hu hb

/-- The text of segments with points between them. -/
theorem spells_segments {segments : List TypeSegment} (nonempty : segments ≠ [])
    (names : ∀ segment ∈ segments, Text.IsName segment.name.name)
    (legible : ∀ segment ∈ segments, ∀ arg ∈ segment.args, arg.Every Legible)
    (h : ∀ segment ∈ segments, ∀ arg ∈ segment.args, SpelledOut W arg)
    (stop : v.head?.any Text.isIdentContinue = false) :
    Spells W (displaySegments segments).toList v (SegmentsTokens true segments) := by
  -- a name stands behind a point, and no digit
  have hpoint : ∀ segment ∈ segments, ∀ w,
      Spells W ".".toList ((displaySegment segment).toList ++ w) (Marked [(.dot, ".")]) :=
      fun segment hsegment w => by
    obtain ⟨more, hmore⟩ := exists_displaySegment_eq segment
    rw [hmore, List.append_assoc]
    exact TokenStream.spells_point (names segment hsegment).1 _
  refine TokenStream.spells_listed displaySegments_singleton displaySegments_cons_cons nonempty hpoint
    fun segment hsegment w hw =>
      spells_segment (names segment hsegment) (legible segment hsegment) (h segment hsegment) ?_
  rcases hw with rfl | ⟨u, rfl⟩
  · exact stop
  · rfl

/-- The text of a name, before anything that does not go on with a word. -/
theorem spells_named {name : NamedType} (nonempty : name.segments ≠ [])
    (qualifier : ∀ qualifier ∈ name.alias?, Text.IsName qualifier.name)
    (names : ∀ segment ∈ name.segments, Text.IsName segment.name.name)
    (legible : ∀ segment ∈ name.segments, ∀ arg ∈ segment.args, arg.Every Legible)
    (h : ∀ segment ∈ name.segments, ∀ arg ∈ segment.args, SpelledOut W arg)
    (stop : v.head?.any Text.isIdentContinue = false) :
    Spells W (NamedType.display name).toList v (NameTokens true name) := by
  obtain ⟨alias?, segments, span⟩ := name
  have hsegments := spells_segments nonempty names legible h stop
  cases alias? with
  | none =>
      rw [NamedType.display]
      exact hsegments.mono fun _ => .plain
  | some outer =>
      rw [NamedType.display, String.toList_append, String.toList_append, List.append_assoc]
      have hcolons := TokenStream.spells_colons (W := W) (v := (displaySegments segments).toList ++ v)
      have hbehind := hcolons.append hsegments (T := fun toks => ∃ t u, toks = t :: u ∧
        t.kind = .doubleColon ∧ SegmentsTokens true segments u) fun t u hmarked hu => by
          obtain ⟨t, rfl, hmark⟩ := hmarked.exists_token
          exact ⟨t, u, rfl, congrArg Prod.fst hmark, hu⟩
      refine (TokenStream.spells_name (qualifier outer rfl) rfl).append hbehind fun t w ht hw => ?_
      obtain ⟨t, rfl, hkind, hname⟩ := ht
      obtain ⟨colons, u, rfl, hcolons, hu⟩ := hw
      exact .qualified hkind hname hcolons hu

/-- The text of an element of a tuple. -/
theorem spells_element {element : TupleElement TypeSyntax Ident}
    (names : ∀ name ∈ element.name?, Text.IsName name.name) (h : SpelledOut W element.type)
    (ends : EndsType v) (stop : v.head? ≠ some '?') :
    Spells W (displayElement element).toList v (ElementTokens element) := by
  obtain ⟨type, name?⟩ := element
  cases name? with
  | none =>
      rw [displayElement]
      exact (h v ends fun _ => stop).mono fun _ => .plain
  | some name =>
      have hname := names name rfl
      have hblank : Spells W [' '] (name.name.toList ++ v) (Marked []) :=
        TokenStream.spells_lead (by decide) (((StartsType.of_word hname.1).append v).head?_ne (by simp))
      have hbehind : Spells W (' ' :: name.name.toList) v fun toks => ∃ t, toks = [t] ∧
          t.kind = .identifier ∧ t.name = name.name :=
        hblank.append (TokenStream.spells_name hname ends.stop) fun t u hmarked hu => by
          rw [List.map_eq_nil_iff.1 hmarked]
          exact hu
      rw [displayElement, String.toList_append, String.toList_append, List.append_assoc]
      refine (h _ (.cons (by decide) _) fun _ heq => absurd (Option.some.inj heq) (by decide)).append hbehind
        fun t u hbegins hu => ?_
      obtain ⟨a, rfl, hkind, heq⟩ := hu
      exact .named hbegins hkind heq

theorem SpelledOut.tuple {elements : List (TupleElement TypeSyntax Ident)} {span : Span}
    (nonempty : elements ≠ []) (names : ∀ element ∈ elements, ∀ name ∈ element.name?, Text.IsName name.name)
    (legible : ∀ element ∈ elements, element.type.Every Legible)
    (h : ∀ element ∈ elements, SpelledOut W element.type) : SpelledOut W (.tuple elements span) :=
  fun v _ _ => by
  have hopening : ∀ w, Spells W ['('] w (Marked [(.leftParen, "(")]) :=
    fun _ => TokenStream.spells_mark (by simp)
  have hclosing : Spells W [')'] v (Marked [(.rightParen, ")")]) := TokenStream.spells_mark (by simp)
  have htext : (TypeSyntax.tuple elements span).display.toList =
      '(' :: ((displayElements elements).toList ++ [')']) := by
    rw [display, String.toList_append, String.toList_append]
    rfl
  have hone : ∀ element, displayElements [element] = displayElement element := fun element => by
    rw [displayElements]
  have hcomma : ∀ element ∈ elements, ∀ w, Spells W ", ".toList ((displayElement element).toList ++ w)
      (Marked [(.comma, ",")]) := fun element helement w => by
    obtain ⟨type, name?⟩ := element
    have hstarts := startsType_display (legible _ helement)
    cases name? with
    | none =>
        rw [displayElement]
        exact (hstarts.append w).spells_comma
    | some name =>
        rw [displayElement, String.toList_append, String.toList_append, List.append_assoc, List.append_assoc]
        exact (hstarts.append _).spells_comma
  have hinside : Spells W (displayElements elements).toList (')' :: v)
      (Listed .comma ElementTokens elements) := by
    refine TokenStream.spells_listed hone displayElements_cons_cons nonempty hcomma
      fun element helement w hw => ?_
    have hspelled := fun w => spells_element (v := w) (names element helement) (h element helement)
    rcases hw with rfl | ⟨u, rfl⟩
    · exact hspelled _ (.cons (by decide) v) fun heq => absurd (Option.some.inj heq) (by decide)
    · exact hspelled _ (.cons (by decide) (' ' :: u)) fun heq => absurd (Option.some.inj heq) (by decide)
  rw [htext]
  refine (TokenStream.spells_enclosed (hopening _) hinside hclosing).mono fun toks htoks => ?_
  obtain ⟨a, u, b, rfl, ha, hu, hb⟩ := htoks
  exact Parser.begins_tuple ha hu hb

/-- The text of a type is spelled wherever it may end. -/
theorem spells_type {type : TypeSyntax} (h : type.Every Legible) : SpelledOut W type := by
  induction type using TypeSyntax.induct with
  | step type ih =>
      obtain ⟨⟨formed, single⟩, hinner⟩ := every_iff.1 h
      have hparts : ∀ part ∈ type.inner, SpelledOut W part :=
        fun part hpart => ih part hpart (hinner part hpart)
      cases type with
      | predefined keyword _ => exact .predefined formed
      | named name =>
          have hmem : ∀ segment ∈ name.segments, ∀ arg ∈ segment.args, arg ∈ (TypeSyntax.named name).inner :=
            fun segment hsegment arg harg => List.mem_flatMap.2 ⟨segment, hsegment, harg⟩
          intro v ends _
          rw [display]
          refine (spells_named formed.1 formed.2.1 formed.2.2
            (fun segment hsegment arg harg => hinner arg (hmem segment hsegment arg harg))
            (fun segment hsegment arg harg => hparts arg (hmem segment hsegment arg harg)) ends.stop).mono ?_
          exact fun _ => Parser.begins_named
      | array element _ _ => exact .array (hparts element (List.mem_singleton_self _)) formed
      | nullable inner span =>
          exact .nullable (hparts inner (List.mem_singleton_self _)) (single inner span rfl)
      | pointer inner _ => exact .pointer (hparts inner (List.mem_singleton_self _))
      | tuple elements _ =>
          have hmem : ∀ element ∈ elements, element.type ∈ elements.map (·.type) :=
            fun element helement => List.mem_map_of_mem helement
          exact .tuple formed.1 formed.2 (fun element helement => hinner _ (hmem element helement))
            fun element helement => hparts _ (hmem element helement)

/-- The text of a name that shows what it is made of. -/
theorem spells_namedType {name : NamedType} (h : (TypeSyntax.named name).Every Legible)
    (stop : v.head?.any Text.isIdentContinue = false) :
    Spells W (NamedType.display name).toList v (NameTokens true name) := by
  obtain ⟨⟨⟨nonempty, hqualifier, hnames⟩, -⟩, hinner⟩ := every_iff.1 h
  have hmem : ∀ segment ∈ name.segments, ∀ arg ∈ segment.args, arg ∈ (TypeSyntax.named name).inner :=
    fun segment hsegment arg harg => List.mem_flatMap.2 ⟨segment, hsegment, harg⟩
  exact spells_named nonempty hqualifier hnames
    (fun segment hsegment arg harg => hinner arg (hmem segment hsegment arg harg))
    (fun segment hsegment arg harg => spells_type (hinner arg (hmem segment hsegment arg harg))) stop

/-- A type is read back from its text, all of which is read. -/
theorem type_display {type : TypeSyntax} (h : type.Every Legible) (source : SourceId) :
    ∃ other s, Parser.type (.ofText source type.display) = .ok other s ∧ s.atEnd = true ∧ s.errors = [] ∧
      type.unplaced = other.unplaced := by
  have hspelled : Spells type.display.toList type.display.toList [] (Begins type) :=
    spells_type h [] (fun c hc => by cases hc) fun _ heq => by cases heq
  obtain ⟨toks, stop, hstream, hbegins⟩ := TokenStream.ofText_of_spells hspelled
  have hstate : ParserState.ofText source type.display = ⟨source, toks, stop, none, [], false, 0⟩ := by
    rw [ParserState.ofText, hstream]
    rfl
  have hrest : ((ParserState.ofText source type.display).pass toks.length).unread = [] := by
    rw [hstate]
    exact List.drop_length (l := toks)
  have hnext : ((ParserState.ofText source type.display).pass toks.length).current.kind = .endOfFile := by
    rw [ParserState.current, ParserState.ahead, hrest]
    rfl
  obtain ⟨other, hother, hsame⟩ := hbegins.reads (.ofText source type.display) []
    (by rw [hstate]; exact (List.append_nil _).symm) (by rw [hnext]; decide)
  refine ⟨other, _, hother, ?_, ?_, hsame⟩
  · rw [ParserState.atEnd, hrest]
    rfl
  · rw [hstate]
    rfl

end TypeSyntax

end Graft
