/-
Module: Graft.Proofs.Generator.ArtifactFiles
Purpose: The files that artifacts are read as.
Main exports: SynthesizedClass.Legible, SynthesizedClass.Sourced, SynthesizedClass.Nest,
  SynthesizedClass.parse_text

An artifact is read without an error as a file with the declarations of its headers, one inside the other,
and in the innermost one the properties that are copied, each with the text of its getter.
-/
import Graft.Proofs.Generator.ArtifactTokens

namespace Graft

open TokenStream (Spells Marked SpelledLines)
open Graft.Parser (Repeats AreMembers DeclTokens DeclaresPart SpaceTokens FileTokens HoldsPart)

variable {W v : List Char}

/-! ### Directives -/

namespace Parser

/-- A directive with the target is read by itself, to its end and without an error. -/
def IsUsingTarget (target : String) : Prop :=
  ∃ d s, usingDirective (.ofText ⟨0⟩ ("using " ++ target ++ ";")) = .ok d s ∧ s.atEnd = true ∧ s.errors = []

instance (target : String) : Decidable (IsUsingTarget target) :=
  decidable_of_iff ((match usingDirective (.ofText ⟨0⟩ ("using " ++ target ++ ";")) with
    | .ok _ s => s.atEnd && s.errors.isEmpty
    | .error _ _ => false) = true) <| by
      unfold IsUsingTarget
      cases usingDirective (.ofText ⟨0⟩ ("using " ++ target ++ ";")) with
      | ok d s => simp
      | error _ _ => simp

/-- The first token of a directive. -/
theorem exists_of_using (target : String) : ∃ t rest,
    (TokenStream.ofText ("using " ++ target ++ ";")).tokens = t :: rest ∧ t.kind = .usingKeyword := by
  have hchars : ("using " ++ target ++ ";").toList = "using".toList ++ ' ' :: (target.toList ++ [';']) := by
    rw [String.toList_append, String.toList_append, List.append_assoc]
    rfl
  have hword : Text.IsWord "using" := Text.isWord_of_all (by decide)
  obtain ⟨toks, hreads, hmarks⟩ := TokenStream.spells_word
    (W := ("using " ++ target ++ ";").toList) (v := ' ' :: (target.toList ++ [';'])) hword rfl 0 hchars
  obtain ⟨t, rfl, hmark⟩ := TokenStream.Marked.exists_token hmarks
  rw [TokenStream.ofText, TokenStream.ofCursor_of_reads (c := .ofText _) hreads]
  exact ⟨t, _, rfl, congrArg Prod.fst hmark⟩

/-- A directive that is read by itself is read wherever it stands. -/
theorem usingTokens_of_target {target : String} (h : IsUsingTarget target) :
    (TokenStream.ofText ("using " ++ target ++ ";")).errors = [] ∧
      UsingTokens (TokenStream.ofText ("using " ++ target ++ ";")).tokens := by
  obtain ⟨d, s, hrun, hend, hclean⟩ := h
  obtain ⟨t, rest, htokens, hkind⟩ := exists_of_using target
  have hstart := ParserState.Stands.ofText ⟨0⟩ ("using " ++ target ++ ";")
  obtain ⟨_, -, -, hquiet⟩ := (Even.usingDirective 0 _ hstart).of_ok hrun
  have hcurrent := current_of_stands hstart (i := 0) (t := t) (by rw [htokens]; rfl)
  obtain ⟨u, hunread, hu⟩ := exists_usingTokens (hcurrent ▸ hkind) hrun
  rw [ParserState.atEnd_iff.1 hend, List.append_nil] at hunread
  refine ⟨List.map_eq_nil_iff.1 (hquiet hclean).1, ?_⟩
  rwa [show (TokenStream.ofText ("using " ++ target ++ ";")).tokens = u from hunread]

end Parser

/-! ### Lines before the declarations -/

namespace SynthesizedClass

/-- The line of a directive. -/
theorem spelledLines_using {target : String} (h : Parser.IsUsingTarget target) :
    SpelledLines ["using " ++ target ++ ";"] fun _ => Parser.UsingTokens := by
  obtain ⟨clean, htokens⟩ := Parser.usingTokens_of_target h
  have hchars : ("using " ++ target ++ ";").toList =
      'u' :: ("sing ".toList ++ (target.toList ++ [';'])) := by
    rw [String.toList_append, String.toList_append, List.append_assoc]
    rfl
  refine .single (by rw [hchars]; simp) fun W v => ?_
  exact (TokenStream.spells_line clean ⟨_, _, hchars, by decide, by decide⟩).mono fun u hu =>
    htokens.of_marks hu

/-- The line that says that an artifact is generated has no tokens. -/
theorem spelledLines_comment : SpelledLines ["// <auto-generated/>"] fun _ u => u = [] := by
  have hstream : (TokenStream.ofText "// <auto-generated/>").errors = [] ∧
      (TokenStream.ofText "// <auto-generated/>").tokens = [] := by decide +kernel
  refine .single (by decide) fun W v => ?_
  refine (TokenStream.spells_line hstream.1 ⟨_, _, rfl, by decide, by decide⟩).mono fun u hu => ?_
  rw [hstream.2] at hu
  exact List.map_eq_nil_iff.1 hu

/-- The lines before the first declaration are those of directives. -/
theorem spelledLines_preamble {config : GeneratorConfig}
    (h : ∀ target ∈ config.usings, Parser.IsUsingTarget target) :
    SpelledLines (preamble config) fun _ toks =>
      ∃ usings : List (List Token), toks = usings.flatten ∧ ∀ u ∈ usings, Parser.UsingTokens u := by
  have hlines : SpelledLines (config.usings.map fun target => "using " ++ target ++ ";") fun _ toks =>
      ∃ usings : List (List Token), toks = usings.flatten ∧ ∀ u ∈ usings, Parser.UsingTokens u := by
    refine (SpelledLines.each fun target htarget => spelledLines_using (h target htarget)).mono ?_
    rintro _ _ ⟨usings, rfl, husings⟩
    refine ⟨usings, rfl, ?_⟩
    generalize config.usings = targets at husings
    induction husings with
    | nil => simp
    | cons hu _ ih => exact List.forall_mem_cons.2 ⟨hu, ih⟩
  unfold preamble
  split
  · refine (spelledLines_comment.both hlines).mono ?_
    rintro _ _ ⟨_, u, rfl, rfl, hu⟩
    exact hu
  · exact hlines

/-- A paragraph has the tokens of its lines. -/
theorem spelledLines_paragraph {lines : List String} {R : List Char → List Token → Prop}
    (h : SpelledLines lines R) :
    SpelledLines (paragraph lines) R := by
  unfold paragraph
  split
  · rename_i hempty
    rwa [List.isEmpty_iff.1 hempty] at h
  · refine (h.both (.blank (R := fun _ u => u = []) fun _ => rfl)).mono ?_
    rintro _ _ ⟨t, _, rfl, ht, rfl⟩
    rwa [List.append_nil]

/-- The line of a namespace. -/
theorem spells_space {path : List String} (nonempty : path ≠ []) (names : ∀ name ∈ path, Text.IsName name) :
    Spells W ("namespace " ++ ".".intercalate path ++ ";").toList v (SpaceTokens path) := by
  obtain ⟨name, rest, rfl⟩ := List.exists_cons_of_ne_nil nonempty
  have hchars : ("namespace " ++ ".".intercalate (name :: rest) ++ ";").toList =
      ("namespace".toList ++ [' ']) ++ ((".".intercalate (name :: rest)).toList ++ [';']) := by
    rw [String.toList_append, String.toList_append, List.append_assoc]
    rfl
  have hpath : Spells W (".".intercalate (name :: rest)).toList (';' :: v)
      (TokenStream.NamesTokens .dot (name :: rest)) :=
    TokenStream.spells_names (List.cons_ne_nil _ _) names TokenStream.spells_point (fun _ => rfl) rfl
  have hsemicolon : Spells W [';'] v (Marked [(.semicolon, ";")]) := TokenStream.spells_mark (by simp)
  obtain ⟨more, hmore⟩ := TokenStream.exists_intercalate_eq "." name rest
  rw [hchars]
  refine ((TokenStream.spells_keyword (Text.isWord_of_all (by decide)) ?_).both
    (hpath.both hsemicolon)).mono ?_
  · rw [hmore, List.append_assoc, List.append_assoc]
    exact (names name List.mem_cons_self).1.head?_ne _
  · rintro _ ⟨t, _, rfl, ht, ofPath, u, rfl, hofPath, hu⟩
    obtain ⟨keyword, rfl, hmark⟩ := TokenStream.Marked.exists_token ht
    obtain ⟨semicolon, rfl, hmark'⟩ := hu.exists_token
    exact ⟨keyword, ofPath, semicolon, rfl, congrArg Prod.fst hmark, hofPath, congrArg Prod.fst hmark'⟩

/-- The lines of the namespace. -/
theorem spelledLines_space {c : SynthesizedClass} (names : ∀ name ∈ c.space, Text.IsName name) :
    SpelledLines c.spaceLines fun _ toks => c.space = [] ∧ toks = [] ∨ SpaceTokens c.space toks := by
  unfold spaceLines
  cases hspace : c.space with
  | nil => exact .nil fun _ => .inl ⟨rfl, rfl⟩
  | cons name rest =>
      rw [hspace] at names
      rw [if_neg (by simp)]
      refine .single ?_ fun W v => (spells_space (List.cons_ne_nil _ _) names).mono fun _ => .inr
      rw [String.toList_append, String.toList_append]
      change some 'n' ≠ _
      decide

/-! ### Declarations -/

/-- The member is a copy of a property in a text: its getter has the same form, and stands where the text is
the text of the property's getter. -/
def IsCopyOf (p : SynthesizedProperty) (W : List Char) (all : List Token) (m : MemberDecl) : Prop :=
  ∃ q, m = .property q ∧ q.name.name = p.name ∧ q.modifiers.isPartial = false ∧
    ∃ span a b, q.getter? = some (p.getter.form, span) ∧ span.Over all a b ∧
      p.getter.RepeatedIn W (Token.between all a b)

/-- The tokens of a copied property are read as a copy of it. -/
theorem isMember_of_hasTokens {p : SynthesizedProperty} {toks : List Token} (h : p.HasTokens W toks) :
    Parser.IsMember (IsCopyOf p W) toks := by
  obtain ⟨modifier, type, name, getter, htokens, hpublic, hname, hcopied⟩ := h
  have hpart : (Parser.modifiersOf [modifier]).isPartial = false := by
    rw [Parser.modifiersOf, List.filterMap_cons, hpublic]
    decide
  refine ⟨?_, fun all i v typeName ordered hu next => ?_⟩
  · obtain ⟨_, _, _, rfl, -⟩ := htokens.parts
    exact ⟨modifier, _, rfl, by rw [htokens.kind]; decide⟩
  · have hnext : Parser.nextKind all (i + toks.length) ≠ .equal := fun heq => by
      rw [heq] at next
      exact absurd next (by decide)
    refine (htokens.delivers ordered hu hnext typeName).mono fun m hm => ?_
    obtain ⟨q, rfl, hsame, hmodifiers, -, span, a, b, hgetter, hspan, rfl⟩ := hm
    exact ⟨q, rfl, hsame.trans hname, by rw [hmodifiers, hpart], span, a, b, hgetter, hspan, hcopied⟩

/-- The lines of copied properties. -/
theorem spelledLines_properties {properties : List SynthesizedProperty}
    (legible : ∀ p ∈ properties, p.Legible) (written : ∀ p ∈ properties, p.getter.Written) :
    SpelledLines (properties.map (·.text)) fun W toks =>
      AreMembers (fun all members => List.Forall₂ (fun p m => IsCopyOf p W all m) properties members)
        toks := by
  have hlines : SpelledLines (properties.map (·.text)) fun W toks => ∃ chunks : List (List Token),
      toks = chunks.flatten ∧ List.Forall₂ (fun p u => p.HasTokens W u) properties chunks :=
    .each fun p hp => .single p.head?_text_ne fun W v =>
      SynthesizedProperty.spells_text (legible p hp) (written p hp) _
  refine hlines.mono ?_
  rintro W _ ⟨chunks, rfl, hchunks⟩
  exact Parser.areMembers (hchunks.imp fun _ _ => isMember_of_hasTokens)

/-- The members are declarations of the headers, one inside the other, and those of
the innermost satisfy `M`. -/
def Nest (M : List MemberDecl → Prop) : List TypeHeader → List MemberDecl → Prop
  | [], members => M members
  | h :: rest, members =>
      ∃ d, members = [.type d] ∧ DeclaresPart h.kind h.name h.typeParams d ∧ Nest M rest d.members

/-- The line of a brace. -/
theorem spelledLines_brace {text : String} {x : Char} {kind : TokenKind} (htext : text.toList = [x])
    (hx : (x, kind) ∈ [('{', TokenKind.leftBrace), ('}', .rightBrace)]) :
    SpelledLines [text] fun _ u => ∃ t, u = [t] ∧ t.kind = kind := by
  simp only [List.mem_cons, Prod.mk.injEq, List.not_mem_nil, or_false] at hx
  refine .single ?_ fun W v => ?_
  · rw [htext]
    rcases hx with ⟨rfl, -⟩ | ⟨rfl, -⟩ <;> simp
  · rw [htext]
    have hmark : Spells W [x] ('\n' :: v) (Marked [(kind, String.singleton x)]) :=
      TokenStream.spells_mark (by rcases hx with ⟨rfl, rfl⟩ | ⟨rfl, rfl⟩ <;> simp)
    refine hmark.mono fun u hu => ?_
    obtain ⟨t, rfl, hmark⟩ := hu.exists_token
    exact ⟨t, rfl, congrArg Prod.fst hmark⟩

/-- The lines of a declaration around those of its members. -/
theorem spelledLines_decl {h : TypeHeader} (legible : h.Legible) (holds : h.CanHold) {body : List String}
    {Q : List Char → List Token → List MemberDecl → Prop}
    (hbody : SpelledLines body fun W toks => AreMembers (Q W) toks) :
    SpelledLines ([h.text, "\x7b"] ++ body.map ("\t" ++ ·) ++ ["\x7d"]) fun W toks =>
      ∃ u, DeclTokens h.kind h.name h.typeParams u toks ∧ AreMembers (Q W) u := by
  have hopening : SpelledLines ["\x7b"] fun _ u => ∃ t, u = [t] ∧ t.kind = .leftBrace :=
    spelledLines_brace (x := '{') rfl (by simp)
  have hclosing : SpelledLines ["\x7d"] fun _ u => ∃ t, u = [t] ∧ t.kind = .rightBrace :=
    spelledLines_brace (x := '}') rfl (by simp)
  have hheader : SpelledLines [h.text] fun _ => h.HasTokens :=
    .single (TypeHeader.head?_text_ne holds) fun W v => TypeHeader.spells_text legible holds
  refine (((hheader.both hopening).both hbody.indented).both hclosing).mono ?_
  rintro W _ ⟨_, _, rfl, ⟨_, u, rfl, ⟨_, _, rfl, hheader, opening, rfl, hkind⟩, hu⟩, closing, rfl, hkind'⟩
  obtain ⟨words, ofKind, ident, ofParams, rfl, hmodifiers, hne, hpart, hofKind, hident, hname, hparams⟩ :=
    hheader
  refine ⟨u, ⟨⟨words, ofKind, ident, ofParams, opening, closing, ?_, hmodifiers, hne, hpart, hofKind,
    hident, hname, hparams, hkind, hkind'⟩, holds.kind⟩, hu⟩
  simp only [List.append_assoc, List.cons_append, List.nil_append]

/-- The lines of nested declarations. -/
theorem spelledLines_nested {inner : List String} {M : List Char → List Token → List MemberDecl → Prop}
    (hinner : SpelledLines inner fun W toks => AreMembers (M W) toks) {headers : List TypeHeader} :
    ∀ {h : TypeHeader}, (∀ h' ∈ h :: headers, h'.Legible ∧ h'.CanHold) →
      SpelledLines (nestedLines inner (h :: headers)) fun W toks =>
        ∃ u, DeclTokens h.kind h.name h.typeParams u toks ∧
        AreMembers (fun all => Nest (M W all) headers) u := by
  induction headers with
  | nil =>
      intro h legible
      obtain ⟨hlegible, hholds⟩ := legible h List.mem_cons_self
      exact spelledLines_decl hlegible hholds hinner
  | cons next rest ih =>
      intro h legible
      obtain ⟨hlegible, hholds⟩ := legible h List.mem_cons_self
      have hinside := ih fun h' hh' => legible h' (List.mem_cons_of_mem _ hh')
      refine spelledLines_decl hlegible hholds (Q := fun W all => Nest (M W all) (next :: rest))
        (hinside.mono fun W toks => ?_)
      rintro ⟨u, hdecl, hmembers⟩ all i closing v typeName ordered hu hclosing
      refine ((hdecl.isMember hmembers).areMembers all i closing v typeName ordered hu hclosing).mono ?_
      rintro _ ⟨_, rfl, d, rfl, hpart, hinside⟩
      exact ⟨d, rfl, hpart, hinside⟩

/-! ### Artifacts -/

/-- The artifact of the class can be read: the names in it are no reserved words, and
its properties can be read. -/
structure Legible (c : SynthesizedClass) : Prop where
  space : ∀ name ∈ c.space, Text.IsName name
  headers : ∀ h ∈ c.headers, h.Legible
  properties : ∀ p ∈ c.properties, p.Legible

/-- The class is made of sources: its headers are those of types that have members, and its
getters are written there. -/
structure Sourced (c : SynthesizedClass) : Prop where
  headers : ∀ h ∈ c.headers, h.CanHold
  getters : ∀ p ∈ c.properties, p.getter.Written

/-- The member is a property of its own with the name of another one, and with a getter
of the same form and text. -/
def CopiedAs (text : String) (p : SynthesizedProperty) (m : MemberDecl) : Prop :=
  ∃ q, m = .property q ∧ q.name.name = p.name ∧ q.modifiers.isPartial = false ∧
    ∃ span, q.getter? = some (p.getter.form, span) ∧ span.slice? text = some p.getter.text

theorem Nest.mono {M N : List MemberDecl → Prop} (hM : ∀ members, M members → N members)
    {headers : List TypeHeader} :
    ∀ {members : List MemberDecl}, Nest M headers members → Nest N headers members := by
  induction headers with
  | nil => exact fun h => hM _ h
  | cons _ _ ih =>
      rintro _ ⟨d, rfl, hpart, hinside⟩
      exact ⟨d, rfl, hpart, ih hinside⟩

/-- The lines of an artifact are read as a file of its own. -/
theorem spelledLines_lines {config : GeneratorConfig}
    (targets : ∀ target ∈ config.usings, Parser.IsUsingTarget target) {c : SynthesizedClass}
    (legible : c.Legible) (sourced : c.Sourced) {first : TypeHeader} {rest : List TypeHeader}
    (hheaders : c.headers = first :: rest) :
    SpelledLines (c.lines config) fun W toks =>
      ∃ u, FileTokens c.space first.kind first.name first.typeParams u toks ∧
      AreMembers (fun all => Nest (List.Forall₂ (fun p m => IsCopyOf p W all m) c.properties) rest) u := by
  have hbody := spelledLines_nested (spelledLines_properties legible.properties sourced.getters) (h := first)
    fun h (hh : h ∈ first :: rest) => ⟨legible.headers h (hheaders ▸ hh), sourced.headers h (hheaders ▸ hh)⟩
  have hspace := spelledLines_paragraph (spelledLines_space legible.space)
  have hpreamble := spelledLines_paragraph (spelledLines_preamble targets)
  unfold lines bodyLines
  rw [hheaders]
  refine ((hpreamble.both hspace).both hbody).mono ?_
  rintro _ _ ⟨_, decl, rfl, ⟨_, space, rfl, ⟨usings, rfl, husings⟩, hspace⟩, u, hdecl, hinner⟩
  exact ⟨u, ⟨usings, space, decl, List.append_assoc _ _ _, husings, hspace, hdecl⟩, hinner⟩

/-- The outermost header and those inside it. -/
theorem exists_headers_eq (c : SynthesizedClass) : ∃ first rest, c.headers = first :: rest := by
  unfold headers
  cases c.containers <;> exact ⟨_, _, rfl⟩

/-- The text of an artifact is read without an error as the declarations of its headers, one inside the
other, with a copy of each property in the innermost one. -/
theorem parse_text {config : GeneratorConfig}
    (targets : ∀ target ∈ config.usings, Parser.IsUsingTarget target) {c : SynthesizedClass}
    (legible : c.Legible) (sourced : c.Sourced) (source : SourceId) :
    ∃ file, SourceFile.parse source (c.text config) = .ok file ∧ (∀ d ∈ file.usings, d.isGlobal = false) ∧
      ∃ d, HoldsPart c.space d file.members ∧
        Nest (List.Forall₂ (CopiedAs (c.text config)) c.properties) c.headers [.type d] := by
  obtain ⟨first, rest, hheaders⟩ := c.exists_headers_eq
  obtain ⟨toks, stop, hstream, u, hfile, hinner⟩ :=
    (spelledLines_lines targets legible sourced hheaders).ofText (show c.text config = _ from rfl)
  have htokens : (TokenStream.ofText (c.text config)).tokens = toks := congrArg TokenStream.tokens hstream
  obtain ⟨file, hparse, husings, d, hpart, hnest, hholds⟩ := Parser.parse_of_tokens
    (congrArg TokenStream.errors hstream) (htokens ▸ hfile) hinner
  refine ⟨file, hparse, husings, d, hholds, ?_⟩
  rw [hheaders]
  refine ⟨d, rfl, hpart, hnest.mono fun members hmembers => hmembers.imp fun p m => ?_⟩
  rintro ⟨q, rfl, hname, hmodifiers, span, a, b, hgetter, hspan, _, hexcerpt⟩
  rw [String.ofList_toList] at hexcerpt
  refine ⟨q, rfl, hname, hmodifiers, span, hgetter, ?_⟩
  rw [hexcerpt.slice? hspan, String.ofList_toList]

end SynthesizedClass

end Graft
