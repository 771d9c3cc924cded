/-
Module: Graft.Proofs.Generator.ArtifactTokens
Purpose: The tokens that the lines of artifacts are read as.
Main exports: TypeHeader.Legible, TypeHeader.spells_text, SynthesizedProperty.Legible,
  SynthesizedProperty.spells_text

An artifact shows what it declares if its names are no reserved words and its types can be read.  The
modifiers before a declaration are words that are read as modifiers there, and a getter is
copied with all of its tokens.
-/
import Graft.Generator.Artifact
import Graft.Proofs.Parser.DeliveredFiles
import Graft.Proofs.Parser.TypeText
import Graft.Proofs.Token.Lines
import Graft.Proofs.Token.Spliced

namespace Graft

open TokenStream (Spells Marked SpelledLines)
open Graft.Parser (Listed)

variable {W v : List Char}

/-! ### Words -/

/-- No word starts with a byte order mark. -/
theorem Text.IsWord.head?_ne {word : String} (h : IsWord word) (v : List Char) :
    (word.toList ++ v).head? ≠ some '\ufeff' :=
  ((TypeSyntax.StartsType.of_word h).append v).head?_ne (by simp)

namespace TokenStream

/-- The token of a word. -/
def markOf (word : String) : TokenKind × String := ((Keyword.kind? word).getD .identifier, word)

/-- Words with a blank behind each. -/
theorem spells_words {words : List String} (h : ∀ word ∈ words, Text.IsWord word)
    (hv : v.head? ≠ some '\ufeff') :
    Spells W (words.flatMap fun word => word.toList ++ [' ']) v (Marked (words.map markOf)) := by
  induction words with
  | nil => exact .nil rfl
  | cons word rest ih =>
      have hrest := ih fun word hword => h word (List.mem_cons_of_mem _ hword)
      have hnext : ((rest.flatMap fun word => word.toList ++ [' ']) ++ v).head? ≠ some '\ufeff' := by
        cases rest with
        | nil => exact hv
        | cons next more =>
            rw [List.flatMap_cons, List.append_assoc, List.append_assoc]
            exact (h next (by simp)).head?_ne _
      have hword : Spells W word.toList ((' ' :: rest.flatMap fun word => word.toList ++ [' ']) ++ v)
          (Marked [markOf word]) := spells_word (h word List.mem_cons_self) rfl
      rw [List.flatMap_cons, List.append_assoc]
      exact hword.marked (hrest.behind (by simp) hnext)

/-- The word that a declaration starts with, and a blank. -/
theorem spells_keyword {word : String} (h : Text.IsWord word) (hv : v.head? ≠ some '\ufeff') :
    Spells W (word.toList ++ [' ']) v (Marked [markOf word]) := by
  have hwords : Spells W ([word].flatMap fun word => word.toList ++ [' ']) v (Marked ([word].map markOf)) :=
    spells_words (List.forall_mem_singleton.2 h) hv
  rwa [List.flatMap_cons, List.flatMap_nil, List.append_nil] at hwords

/-- Some names, one behind the other. -/
abbrev NamesTokens (kind : TokenKind) : List String → List Token → Prop :=
  Listed kind fun name u => ∃ t, u = [t] ∧ t.kind = .identifier ∧ t.name = name

/-- Names with a separator between them. -/
theorem spells_names {kind : TokenKind} {lexeme separator : String} {names : List String}
    (nonempty : names ≠ []) (h : ∀ name ∈ names, Text.IsName name)
    (hseparator : ∀ {word : String}, Text.IsWord word → ∀ w,
      Spells W separator.toList (word.toList ++ w) (Marked [(kind, lexeme)]))
    (inside : ∀ w, (separator.toList ++ w).head?.any Text.isIdentContinue = false)
    (stop : v.head?.any Text.isIdentContinue = false) :
    Spells W (separator.intercalate names).toList v (NamesTokens kind names) := by
  refine spells_listed (fun name => (String.intercalate_singleton : _ = id name))
    (fun _ _ _ => String.intercalate_cons_cons) nonempty (fun name hname => hseparator (h name hname).1)
    fun name hname w hw => spells_name (h name hname) ?_
  rcases hw with rfl | ⟨u, rfl⟩
  · exact stop
  · exact inside u

/-- Names with a separator between them start with the first one. -/
theorem exists_intercalate_eq (separator first : String) (rest : List String) :
    ∃ more, (separator.intercalate (first :: rest)).toList = first.toList ++ more :=
  exists_texts_eq (fun name => (String.intercalate_singleton : _ = id name))
    (fun _ _ _ => String.intercalate_cons_cons) first rest

end TokenStream

/-! ### Headers -/

open Graft.Parser (AreModifiers modifiersOf KindTokens ParamTokens)

/-- The modifiers that say who may use a declaration, with the words that they consist of. -/
def Modifiers.accessWords : List (Option String × List String) :=
  [(none, []), (some "public", ["public"]), (some "internal", ["internal"]), (some "private", ["private"]),
   (some "protected", ["protected"]), (some "file", ["file"]),
   (some "protected internal", ["protected", "internal"]),
   (some "private protected", ["private", "protected"])]

/-- There are no other ones. -/
theorem Modifiers.accessibility?_mem (m : Modifiers) : m.accessibility? ∈ accessWords.map Prod.fst := by
  unfold accessibility?
  dsimp only
  repeat' split
  all_goals decide

/-- The words before the keyword of a declaration are modifiers there, one of
which says that it is a part. -/
theorem Modifiers.accessWords_spec : ∀ entry ∈ accessWords,
    ((entry.1.map (· ++ " ")).getD "").toList = (entry.2.flatMap fun word => word.toList ++ [' ']) ∧
    (∀ word ∈ entry.2, (word.toList.head?.any Text.isIdentStart &&
      word.toList.tail.all Text.isIdentContinue) = true) ∧
    (∀ word ∈ entry.2, (TokenStream.markOf word).1 = .modifier ∨
      (TokenStream.markOf word).1 = .identifier ∧ word ∈ Parser.contextualModifiers) ∧
    (((entry.2 ++ ["partial"]).filterMap ofKeyword?).foldl union empty).isPartial = true := by
  decide

/-- The words that introduce a declaration. -/
def TypeKind.words : TypeKind → List String
  | recordStructKind => ["record", "struct"]
  | kind => [kind.keyword]

theorem TypeKind.words_spec (kind : TypeKind) :
    (kind.keyword ++ " ").toList = (kind.words.flatMap fun word => word.toList ++ [' ']) ∧
      ∀ word ∈ kind.words,
        (word.toList.head?.any Text.isIdentStart && word.toList.tail.all Text.isIdentContinue) = true := by
  cases kind <;> decide

/-- The words that introduce a declaration are read as its kind. -/
theorem Parser.KindTokens.of_marks {kind : TypeKind} (hkind : kind ≠ .enumKind) {u : List Token}
    (h : Marked (kind.words.map TokenStream.markOf) u) : KindTokens kind u := by
  cases kind with
  | enumKind => exact absurd rfl hkind
  | recordStructKind =>
      obtain ⟨t, rest, rfl, hmark, hrest⟩ := List.map_eq_cons_iff.1 h
      obtain ⟨next, rfl, hnext⟩ := TokenStream.Marked.exists_token hrest
      exact .recordStructKind (congrArg Prod.fst hmark) (congrArg Prod.snd hmark) (congrArg Prod.fst hnext)
  | classKind =>
      obtain ⟨t, rfl, hmark⟩ := TokenStream.Marked.exists_token h
      exact .classKind (congrArg Prod.fst hmark)
  | structKind =>
      obtain ⟨t, rfl, hmark⟩ := TokenStream.Marked.exists_token h
      exact .structKind (congrArg Prod.fst hmark)
  | interfaceKind =>
      obtain ⟨t, rfl, hmark⟩ := TokenStream.Marked.exists_token h
      exact .interfaceKind (congrArg Prod.fst hmark)
  | recordKind =>
      obtain ⟨t, rfl, hmark⟩ := TokenStream.Marked.exists_token h
      exact .recordKind (congrArg Prod.fst hmark) (congrArg Prod.snd hmark)

namespace TypeHeader

/-- The header can be read: its names are no reserved words. -/
structure Legible (h : TypeHeader) : Prop where
  name : Text.IsName h.name
  params : ∀ param ∈ h.typeParams, Text.IsName param

/-- The header is one of a type that has members, with modifiers that say who may use it. -/
structure CanHold (h : TypeHeader) : Prop where
  kind : h.kind ≠ .enumKind
  access : h.accessibility? ∈ Modifiers.accessWords.map Prod.fst

/-- The tokens of a header. -/
def HasTokens (h : TypeHeader) (toks : List Token) : Prop :=
  ∃ words ofKind ident ofParams, toks = words ++ (ofKind ++ ident :: ofParams) ∧ AreModifiers words ∧
    words ≠ [] ∧ (modifiersOf words).isPartial = true ∧ KindTokens h.kind ofKind ∧
    ident.kind = .identifier ∧ ident.name = h.name ∧ ParamTokens h.typeParams ofParams

/-- The text of the type parameters. -/
def paramsText (h : TypeHeader) : String :=
  if h.typeParams.isEmpty then "" else "<" ++ ", ".intercalate h.typeParams ++ ">"

/-- The text of the type parameters is read as these. -/
theorem spells_params {h : TypeHeader} (legible : h.Legible) :
    Spells W h.paramsText.toList v (ParamTokens h.typeParams) := by
  unfold paramsText
  cases hparams : h.typeParams with
  | nil => exact .nil .none
  | cons param rest =>
      have hnames : ∀ name ∈ param :: rest, Text.IsName name := hparams ▸ legible.params
      have hlist : Spells W (", ".intercalate (param :: rest)).toList ('>' :: v)
          (TokenStream.NamesTokens .comma (param :: rest)) :=
        TokenStream.spells_names (List.cons_ne_nil _ _) hnames
          (fun hword w => ((TypeSyntax.StartsType.of_word hword).append w).spells_comma) (fun _ => rfl) rfl
      obtain ⟨more, hmore⟩ := TokenStream.exists_intercalate_eq ", " param rest
      have hparam := TypeSyntax.StartsType.of_word (hnames param List.mem_cons_self).1
      have hstarts := (hparam.append more).append ('>' :: v)
      rw [← hmore] at hstarts
      have hgreater : Spells W ['>'] v (Marked [(.greater, ">")]) := TokenStream.spells_mark (by simp)
      have hbetween := TokenStream.spells_enclosed
        (TokenStream.spells_less ⟨hstarts.head?_ne (by simp), hstarts.head?_ne (by simp)⟩) hlist hgreater
      have htext : (if (param :: rest).isEmpty then "" else "<" ++ ", ".intercalate (param :: rest) ++
          ">").toList = '<' :: ((", ".intercalate (param :: rest)).toList ++ ['>']) := by
        rw [if_neg (by simp), String.toList_append, String.toList_append, List.append_assoc]
        rfl
      rw [htext]
      refine hbetween.mono fun toks htoks => ?_
      obtain ⟨less, u, greater, rfl, hless, hu, hgreater⟩ := htoks
      exact .some hless hu hgreater

/-- The words of a header and what stands behind them. -/
theorem exists_words {h : TypeHeader} (holds : h.CanHold) :
    ∃ words, (h.accessibility?, words) ∈ Modifiers.accessWords ∧
    (∀ word ∈ words ++ ["partial"] ++ h.kind.words, Text.IsWord word) ∧
    h.text.toList = ((words ++ ["partial"] ++ h.kind.words).flatMap fun word => word.toList ++ [' ']) ++
      (h.name.toList ++ h.paramsText.toList) := by
  obtain ⟨⟨access?, words⟩, hentry, rfl⟩ := List.mem_map.1 holds.access
  obtain ⟨htext, hwords, -⟩ := Modifiers.accessWords_spec _ hentry
  obtain ⟨hkeyword, hkinds⟩ := h.kind.words_spec
  refine ⟨words, hentry, fun word hword => ?_, ?_⟩
  · rcases List.mem_append.1 hword with hword | hword
    · rcases List.mem_append.1 hword with hword | hword
      · exact Text.isWord_of_all (hwords word hword)
      · exact List.mem_singleton.1 hword ▸ Text.isWord_of_all (by decide)
    · exact Text.isWord_of_all (hkinds word hword)
  · have hpart : (["partial"].flatMap fun word => word.toList ++ [' ']) = "partial ".toList := rfl
    rw [List.flatMap_append, List.flatMap_append, ← hkeyword, ← htext, hpart, text, ← paramsText]
    simp only [String.toList_append, List.append_assoc]

/-- A header starts with a word. -/
theorem head?_text_ne {h : TypeHeader} (holds : h.CanHold) : h.text.toList.head? ≠ some '\ufeff' := by
  obtain ⟨words, -, hwords, htext⟩ := exists_words holds
  obtain ⟨word, rest, hfirst⟩ : ∃ word rest, words ++ ["partial"] ++ h.kind.words = word :: rest := by
    cases words <;> exact ⟨_, _, rfl⟩
  rw [hfirst] at hwords htext
  rw [htext, List.flatMap_cons, List.append_assoc, List.append_assoc]
  exact (hwords word List.mem_cons_self).head?_ne _

/-- The first line of a declaration is read as its header. -/
theorem spells_text {h : TypeHeader} (legible : h.Legible) (holds : h.CanHold) :
    Spells W h.text.toList ('\n' :: v) h.HasTokens := by
  obtain ⟨words, hentry, hall, hchars⟩ := exists_words holds
  obtain ⟨-, -, hmodifiers, hpartial⟩ := Modifiers.accessWords_spec _ hentry
  dsimp only at hmodifiers hpartial
  have hstop : (h.paramsText.toList ++ '\n' :: v).head?.any Text.isIdentContinue = false := by
    unfold paramsText
    cases h.typeParams with
    | nil => rfl
    | cons param rest =>
        rw [if_neg (by simp), String.toList_append, String.toList_append]
        rfl
  have hnamed := (TokenStream.spells_name (W := W) legible.name hstop).both (spells_params legible)
  rw [hchars]
  refine (TokenStream.spells_words hall (by rw [List.append_assoc]; exact legible.name.1.head?_ne _)).append
    hnamed ?_
  rintro toks _ hmarks ⟨_, ofParams, rfl, ⟨ident, rfl, hident, hsame⟩, hparams⟩
  obtain ⟨before, ofKind, rfl, hbefore, hofKind⟩ := List.map_eq_append_iff.1 (hmarks.trans (List.map_append))
  refine ⟨before, ofKind, ident, ofParams, List.append_assoc _ _ _, ?_, ?_, ?_, .of_marks holds.kind hofKind,
    hident, hsame, hparams⟩
  · intro t ht
    obtain ⟨word, hword, hmark⟩ := List.mem_map.1 (hbefore ▸ List.mem_map_of_mem (f := Token.mark) ht)
    have hkind : (TokenStream.markOf word).1 = .modifier ∨
        (TokenStream.markOf word).1 = .identifier ∧ word ∈ Parser.contextualModifiers := by
      rcases List.mem_append.1 hword with hword | hword
      · exact hmodifiers word hword
      · exact List.mem_singleton.1 hword ▸ .inr (by decide)
    rw [hmark] at hkind
    rcases hkind with hkind | ⟨hkind, hcontextual⟩
    · exact .inl hkind
    · obtain rfl : word = t.lexeme := congrArg Prod.snd hmark
      exact .inr ⟨hkind, hcontextual⟩
  · rintro rfl
    simp at hbefore
  · have hlexemes : before.map Token.lexeme = words ++ ["partial"] := by
      have hsecond := congrArg (List.map Prod.snd) hbefore
      rw [List.map_map, List.map_map] at hsecond
      exact hsecond.trans (List.map_id _)
    rw [← hlexemes, List.filterMap_map] at hpartial
    exact hpartial

end TypeHeader

/-! ### Properties -/

/-- A name without type arguments at its end is all that a member is called. -/
theorem Parser.memberName_of_bare {name : NamedType} (nonempty : name.segments ≠ [])
    (bare : ∀ last ∈ name.segments.getLast?, last.args = []) :
    (memberName name).name = NamedType.display name := by
  obtain ⟨alias?, segments, span⟩ := name
  obtain ⟨last, hlast⟩ : ∃ last, segments.getLast? = some last :=
    Option.isSome_iff_exists.1 (by simpa using nonempty)
  have hargs : last.args = [] := bare last hlast
  have hsame : segments.dropLast ++ [{ last with args := [] }] = segments := by
    rw [← hargs]
    exact List.dropLast_append_getLast? last hlast
  unfold memberName
  split
  · rename_i segment halias hsegments
    dsimp only at halias hsegments
    subst halias hsegments
    obtain rfl : segment = last := Option.some.inj hlast
    obtain ⟨ident, args⟩ := segment
    obtain rfl : args = [] := hargs
    rw [NamedType.display, TypeSyntax.displaySegments_singleton, TypeSyntax.displaySegment]
  · dsimp only
    rw [hlast]
    dsimp only
    rw [hsame]

namespace Getter

/-- The getter is text of a source, whose tokens are read as a getter wherever they stand. -/
def Written (g : Getter) : Prop :=
  ∃ source toks before, TokenStream.Excerpt source toks before g.text.toList ∧ g.form.Written toks

/-- The tokens are those of the getter's text, which stands in another text. -/
def RepeatedIn (g : Getter) (W : List Char) (toks : List Token) : Prop :=
  ∃ before, TokenStream.Excerpt (String.ofList W) toks before g.text.toList

/-- The getter with what closes its property. -/
def body (g : Getter) : List Char :=
  match g.form with
  | .arrow => g.text.toList ++ [';']
  | .accessor => '{' :: ' ' :: (g.text.toList ++ [' ', '}'])

namespace Written

variable {g : Getter} (h : g.Written)
include h

/-- The text of the getter starts with no byte order mark. -/
theorem head?_text_ne (v : List Char) : (g.text.toList ++ v).head? ≠ some '\ufeff' := by
  obtain ⟨_, _, _, excerpt, -⟩ := h
  obtain ⟨first, rest, htext, hplain, -⟩ := excerpt.plain
  rw [htext]
  intro heq
  obtain rfl : first = '\ufeff' := Option.some.inj heq
  simp [TokenStream.isLead] at hplain

theorem head?_body_ne (v : List Char) : (g.body ++ v).head? ≠ some '\ufeff' := by
  unfold body
  split
  · rw [List.append_assoc]
    exact h.head?_text_ne _
  · change some '{' ≠ _
    decide

/-- The text of the getter is read as a getter before a blank, a new line or a semicolon. -/
theorem spells_text {c : Char} (hc : c = ' ' ∨ c = '\n' ∨ c = ';') (v : List Char) :
    Spells W g.text.toList (c :: v) fun toks => g.form.Written toks ∧ g.RepeatedIn W toks := by
  obtain ⟨source, toks, before, excerpt, written⟩ := h
  refine (excerpt.spells (v := c :: v) fun x hx => Option.some.inj hx ▸ hc).mono fun getter hgetter => ?_
  exact ⟨written.of_marks hgetter.1, hgetter.2⟩

/-- The getter is read with what closes its property. -/
theorem spells_body (v : List Char) : Spells W g.body v fun toks => ∃ getter,
    Parser.GetterTokens g.form getter toks ∧ g.RepeatedIn W getter := by
  unfold body
  cases hform : g.form with
  | arrow =>
      have hsemicolon : Spells W [';'] v (Marked [(.semicolon, ";")]) := TokenStream.spells_mark (by simp)
      refine ((h.spells_text (by simp) v).both hsemicolon).mono ?_
      rintro _ ⟨getter, u, rfl, ⟨hgetter, hrepeated⟩, hu⟩
      obtain ⟨semicolon, rfl, hmark⟩ := hu.exists_token
      exact ⟨getter, .arrow (hform ▸ hgetter) (congrArg Prod.fst hmark), hrepeated⟩
  | accessor =>
      have hopening : ∀ w, Spells W ['{'] w (Marked [(.leftBrace, "\x7b")]) := fun _ =>
        TokenStream.spells_mark (by simp)
      have hclosing : Spells W ['}'] v (Marked [(.rightBrace, "\x7d")]) := TokenStream.spells_mark (by simp)
      have hinside := (h.spells_text (by simp) ('}' :: v)).both
        (hclosing.behind (x := ' ') (by simp) (by simp))
      have hblank := hinside.behind (x := ' ') (by simp) (by rw [List.append_assoc]; exact h.head?_text_ne _)
      refine ((hopening _).both hblank).mono ?_
      rintro _ ⟨t, _, rfl, ht, getter, u, rfl, ⟨hgetter, hrepeated⟩, hu⟩
      obtain ⟨opening, rfl, hmark⟩ := ht.exists_token
      obtain ⟨closing, rfl, hmark'⟩ := hu.exists_token
      exact ⟨getter, .accessor (hform ▸ hgetter) (congrArg Prod.fst hmark) (congrArg Prod.fst hmark'),
        hrepeated⟩

end Written

end Getter

namespace SynthesizedProperty

/-- The property can be read: its type and its name can, and its type is no word that another
declaration starts with. -/
structure Legible (p : SynthesizedProperty) : Prop where
  type : ∃ type : TypeSyntax, type.Every TypeSyntax.Legible ∧ type.display = p.type
  plain : p.type ∉ Parser.misreadTypes
  name : ∃ name : NamedType, (TypeSyntax.named name).Every TypeSyntax.Legible ∧
    NamedType.display name = p.name ∧ ∀ last ∈ name.segments.getLast?, last.args = []

/-- The tokens of a property that is copied. -/
def HasTokens (p : SynthesizedProperty) (W : List Char) (toks : List Token) : Prop :=
  ∃ modifier type name getter, Parser.PropertyTokens modifier type name p.getter.form getter toks ∧
    modifier.lexeme = "public" ∧ (Parser.memberName name).name = p.name ∧ p.getter.RepeatedIn W getter

/-- The text of a property consists of its type, its name and its getter. -/
theorem toList_text (p : SynthesizedProperty) : p.text.toList =
    ("public".toList ++ [' ']) ++ (p.type.toList ++ ' ' :: (p.name.toList ++ ' ' :: p.getter.body)) := by
  unfold text Getter.body
  cases p.getter.form <;> simp only [String.toList_append, List.append_assoc] <;> rfl

/-- The text of a property starts with a letter. -/
theorem head?_text_ne (p : SynthesizedProperty) : p.text.toList.head? ≠ some '\ufeff' := by
  rw [toList_text]
  change some 'p' ≠ _
  decide

/-- The name and the getter of a property, behind its type. -/
theorem spells_member {p : SynthesizedProperty} {name : NamedType}
    (legible : (TypeSyntax.named name).Every TypeSyntax.Legible) (hname : NamedType.display name = p.name)
    (written : p.getter.Written) (v : List Char) :
    Spells W (' ' :: (p.name.toList ++ ' ' :: p.getter.body)) v fun toks => ∃ ofName ofGetter,
      toks = ofName ++ ofGetter ∧ Parser.NameTokens true name ofName ∧
        ∃ getter, Parser.GetterTokens p.getter.form getter ofGetter ∧ p.getter.RepeatedIn W getter := by
  have hstarts := TypeSyntax.startsType_display legible
  rw [TypeSyntax.display, hname] at hstarts
  have hgetter := (written.spells_body (W := W) v).behind (x := ' ') (by simp) (written.head?_body_ne v)
  have hspelled := (TypeSyntax.spells_namedType legible rfl).both hgetter
  rw [hname] at hspelled
  refine hspelled.behind (by simp) ?_
  rw [List.append_assoc]
  exact (hstarts.append _).head?_ne (by simp)

/-- The declaration of a copied property is read as such. -/
theorem spells_text {p : SynthesizedProperty} (legible : p.Legible) (written : p.getter.Written)
    (v : List Char) :
    Spells W p.text.toList v (p.HasTokens W) := by
  obtain ⟨type, htype, hdisplay⟩ := legible.type
  obtain ⟨name, hlegible, hname, hbare⟩ := legible.name
  have nonempty : name.segments ≠ [] := (TypeSyntax.every_iff.1 hlegible).1.1.1
  have hstarts := (TypeSyntax.startsType_display htype).append
    (' ' :: (p.name.toList ++ ' ' :: p.getter.body))
  have hbehind := (TypeSyntax.spells_type (W := W) htype _ (.cons (by simp) _) fun _ => by simp).both
    (spells_member hlegible hname written v)
  rw [hdisplay] at hstarts hbehind
  rw [toList_text]
  refine ((TokenStream.spells_keyword (Text.isWord_of_all (by decide))
    ((hstarts.append v).head?_ne (by simp))).both hbehind).mono ?_
  rintro _ ⟨t, _, rfl, ht, ofType, _, rfl, hofType, ofName, ofGetter, rfl, hofName, getter, hofGetter,
    hrepeated⟩
  obtain ⟨modifier, rfl, hmark⟩ := TokenStream.Marked.exists_token ht
  exact ⟨modifier, type, name, getter, ⟨⟨ofType, ofName, ofGetter, rfl, hofType, hofName, hofGetter⟩,
    congrArg Prod.fst hmark, hdisplay ▸ legible.plain⟩, congrArg Prod.snd hmark,
    (Parser.memberName_of_bare nonempty hbare).trans hname, hrepeated⟩

end SynthesizedProperty

end Graft
