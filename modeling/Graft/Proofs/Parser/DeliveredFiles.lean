/-
Module: Graft.Proofs.Parser.DeliveredFiles
Purpose: Files of directives and one declaration are read from the tokens that they are written with.
Main exports: Parser.FileTokens, Parser.SpaceTokens, Parser.parse_of_tokens

A file starts with directives, and goes on with one declaration, or with a namespace whose body
is the rest of the file.
-/
import Graft.Proofs.Parser.DeliveredTypes

namespace Graft.Parser

variable {all u v w : List Token} {i j k : Nat} {t : Token} {P : List NamespaceMember → Prop}

/-! ### Items -/

/-- A body holds only directives that are not for the whole program, and members as `P` says. -/
def Holds (P : List NamespaceMember → Prop) (body : NamespaceBody) : Prop :=
  (∀ d ∈ body.usings, d.isGlobal = false) ∧ P body.members

/-- An item is read before the end of a file. -/
theorem delivers_round {Q : NamespaceBody → Prop} (hmore : i < all.length)
    (h : Delivers all i j Q (namespaceItem namespaceDecl)) :
    Delivers all i j (fun part? => ∃ part, part? = some part ∧ Q part) (namespaceRound false) := by
  refine .atEnd <| .check _ ?_
  rw [decide_eq_false (Nat.not_le.2 hmore), Bool.false_and, Bool.or_self, if_neg Bool.false_ne_true]
  exact h.recovering.map fun part hpart => ⟨part, rfl, hpart⟩

/-- The last item of a file. -/
theorem deliversAll_last (hmore : i < all.length)
    (h : Delivers all i all.length (Holds P) (namespaceItem namespaceDecl)) :
    DeliversAll all i all.length (fun parts => Holds P (.concat parts)) (namespaceRound false) := by
  have hend : Delivers all all.length all.length (· = none) (namespaceRound false) := by
    refine .atEnd <| .check _ ?_
    rw [decide_eq_true (Nat.le_refl _), Bool.true_or, if_pos rfl]
    exact .pure rfl
  refine .cons (delivers_round hmore h) hmore (.nil hend fun part hpart => ?_)
  refine ⟨fun d hd => hpart.1 d ?_, ?_⟩
  · simpa [NamespaceBody.concat, NamespaceBody.append, NamespaceBody.empty] using hd
  · simpa [NamespaceBody.concat, NamespaceBody.append, NamespaceBody.empty] using hpart.2

/-- A directive before further items. -/
theorem deliversAll_using {a : Token} (ha : a.kind = .usingKeyword)
    (h : Repeats (fun d => d.isGlobal = false) usingDirective (a :: u)) (hu : all.drop i = a :: u ++ v)
    (hrest : DeliversAll all (i + (a :: u).length) j (fun parts => Holds P (.concat parts))
      (namespaceRound false)) :
    DeliversAll all i j (fun parts => Holds P (.concat parts)) (namespaceRound false) := by
  have hlt : i < all.length := (List.getElem?_eq_some_iff.1 (getElem?_of_drop hu)).1
  have hdirective := Delivers.of_repeats h (Even.usingDirective i) hu
  have hitem : Delivers all i (i + (a :: u).length) (fun body : NamespaceBody => body.members = [] ∧
      ∀ d ∈ body.usings, d.isGlobal = false) (namespaceItem namespaceDecl) := by
    refine .get fun s hs => ?_
    have husing : isUsing s = true := by
      rw [isUsing, check_of_stands hs, nextKind_of_append hu, decide_eq_true ha, Bool.true_or]
    rw [if_pos husing]
    refine hdirective.bind fun d hd => .pure ⟨rfl, fun d' hd' => ?_⟩
    rw [List.mem_singleton.1 hd']
    exact hd.1
  refine .cons (delivers_round hlt hitem) (by simp) (hrest.mono fun parts hparts part hpart => ?_)
  obtain ⟨hmembers, husings⟩ := hpart
  refine ⟨fun d hd => ?_, ?_⟩
  · rcases List.mem_append.1 hd with hd | hd
    · exact husings d hd
    · exact hparts.1 d hd
  · change P (part.members ++ _)
    rw [hmembers]
    exact hparts.2

/-- Directives before further items. -/
theorem deliversAll_usings {chunks : List (List Token)} (h : ∀ u ∈ chunks, UsingTokens u)
    (hu : all.drop i = chunks.flatten ++ v) (hrest : DeliversAll all (i + chunks.flatten.length) j
      (fun parts => Holds P (.concat parts)) (namespaceRound false)) :
    DeliversAll all i j (fun parts => Holds P (.concat parts)) (namespaceRound false) := by
  induction chunks generalizing i with
  | nil => exact hrest
  | cons u chunks ih =>
      obtain ⟨a, w, rfl, ha, hrepeats⟩ := h u List.mem_cons_self
      rw [List.flatten_cons, List.append_assoc] at hu
      rw [List.flatten_cons, List.length_append, ← Nat.add_assoc] at hrest
      exact deliversAll_using ha hrepeats hu
        (ih (fun u hu => h u (List.mem_cons_of_mem _ hu)) (drop_of_append hu) hrest)

/-! ### Declarations in files -/

variable {kind : TypeKind} {name : String} {params : List String} {inner : List Token}
  {Q : List Token → List MemberDecl → Prop}

/-- The last item of a file is a declaration. -/
theorem deliversAll_type (ordered : Token.InOrder all) (h : DeclTokens kind name params inner u)
    (hinner : AreMembers Q inner) (hu : all.drop i = u) :
    DeliversAll all i all.length (fun parts => Holds (fun members => ∃ d, members = [.type d] ∧
      DeclaresPart kind name params d ∧ Q all d.members) (.concat parts)) (namespaceRound false) := by
  obtain ⟨t, rest, hstart, hkind⟩ := h.starts
  have hdrop : all.drop i = t :: rest := hu.trans hstart
  have hat := getElem?_of_drop hdrop
  have hlt : i < all.length := (List.getElem?_eq_some_iff.1 hat).1
  have hlength : i + u.length = all.length := by
    rw [← hu, List.length_drop]
    omega
  have hend : nextKind all (i + u.length) ≠ .semicolon := by
    rw [hlength, nextKind, List.getElem?_eq_none (Nat.le_refl _)]
    decide
  have htype := h.delivers_namespaceType ordered hinner (v := []) (by rw [hu, List.append_nil]) hend
  rw [hlength] at htype
  refine deliversAll_last hlt <| .get fun s hs => ?_
  -- no other item starts with a modifier
  have hcurrent := current_of_stands hs hat
  have hother : isUsing s = false ∧ isGlobalAttribute s = false ∧ s.check .namespaceKeyword = false ∧
      s.check .rightBrace = false := by
    rw [isUsing, isGlobalAttribute]
    simp only [ParserState.check, ParserState.checkWord, hcurrent]
    rcases hkind with hkind | ⟨hkind, hword⟩
    · simp [hkind]
    · have hglobal : t.lexeme ≠ "global" := fun heq => absurd (heq ▸ hword) (by decide)
      simp [hkind, hglobal]
  obtain ⟨husing, hglobal, hspace, hbrace⟩ := hother
  rw [husing, if_neg Bool.false_ne_true, hglobal, if_neg Bool.false_ne_true, hspace,
    if_neg Bool.false_ne_true, hbrace, if_neg Bool.false_ne_true]
  refine htype.bind fun d? hd => .pure ⟨List.forall_mem_nil _, ?_⟩
  obtain ⟨d, rfl, hdecl⟩ := hd
  exact ⟨d, rfl, hdecl⟩

/-- The tokens of a namespace that is the rest of a file. -/
def SpaceTokens (path : List String) (u : List Token) : Prop :=
  ∃ keyword ofPath semicolon, u = keyword :: (ofPath ++ [semicolon]) ∧ keyword.kind = .namespaceKeyword ∧
    Listed .dot (fun name u => ∃ t, u = [t] ∧ t.kind = .identifier ∧ t.name = name) path ofPath ∧
    semicolon.kind = .semicolon

/-- The names of a path, the further ones each behind a point. -/
theorem exists_of_path {path : List String} {u : List Token}
    (h : Listed .dot (fun name u => ∃ t, u = [t] ∧ t.kind = .identifier ∧ t.name = name) path u) :
    ∃ t w more, u = t :: w ∧ t.kind = .identifier ∧ path = t.name :: more ∧
      ∀ i, all.drop i = w ++ v → nextKind all (i + w.length) ≠ .dot →
        DeliversAll all i (i + w.length) (fun list => list.map (·.name) = more)
          (whenever (eat .dot) ident) := by
  induction h with
  | last phrase =>
      obtain ⟨t, rfl, hkind, rfl⟩ := phrase
      exact ⟨t, [], [], rfl, hkind, rfl, fun i _ next => .nil (.notEaten next (.pure rfl)) rfl⟩
  | @more _ _ _ dot _ phrase hdot _ ih =>
      obtain ⟨t, rfl, hkind, rfl⟩ := phrase
      obtain ⟨t', w, more, rfl, hkind', rfl, hmore⟩ := ih
      refine ⟨t, dot :: t' :: w, t'.name :: more, rfl, hkind, rfl, fun i hu next => ?_⟩
      have hname := drop_of_cons hu
      have hlength : i + (dot :: t' :: w).length = i + 1 + 1 + w.length := by
        simp only [List.length_cons]
        omega
      rw [hlength] at next ⊢
      have hfirst : Delivers all i (i + 1 + 1) (fun name? => ∃ name, name? = some name ∧ name.name = t'.name)
          (whenever (eat .dot) ident) := by
        refine .eat hu hdot ?_
        rw [if_pos rfl]
        have hident : Delivers all (i + 1) (i + 1 + 1) (fun name => name.name = t'.name) ident := by
          rw [← bind_pure ident]
          exact .ident hname hkind' (.pure rfl)
        exact hident.map fun name hname => ⟨name, rfl, hname⟩
      refine .cons hfirst (by omega) ((hmore _ (drop_of_cons hname) next).mono ?_)
      rintro list hlist name hname
      rw [List.map_cons, hname, hlist]

/-- A namespace is read with the rest of the file. -/
theorem deliversAll_space {path : List String} (h : SpaceTokens path w) (hu : all.drop i = w ++ u)
    (hrest : DeliversAll all (i + w.length) all.length (fun parts => Holds P (.concat parts))
      (namespaceRound false)) :
    DeliversAll all i all.length (fun parts => Holds (fun members => ∃ n, members = [.space n] ∧
      n.path = path ∧ Holds P ⟨n.usings, [], n.members⟩) (.concat parts)) (namespaceRound false) := by
  obtain ⟨keyword, ofPath, semicolon, rfl, hkeyword, hpath, hsemicolon⟩ := h
  obtain ⟨t, more, names, rfl, hkind, rfl, hnames⟩ := exists_of_path hpath
  simp only [List.cons_append, List.append_assoc] at hu
  have hfirst := drop_of_cons hu
  have hmore := drop_of_cons hfirst
  have hend := drop_of_append hmore
  have hlength : i + (keyword :: (t :: more ++ [semicolon])).length = i + 1 + 1 + more.length + 1 := by
    simp only [List.length_cons, List.length_append, List.length_nil]
    omega
  rw [hlength] at hrest
  have hlt : i < all.length := (List.getElem?_eq_some_iff.1 (getElem?_of_drop hu)).1
  have hnext : nextKind all (i + 1 + 1 + more.length) = .semicolon :=
    (nextKind_of_drop hend).trans hsemicolon
  refine deliversAll_last hlt <| .get fun s hs => ?_
  have hcurrent : s.current = keyword := current_of_stands hs (getElem?_of_drop hu)
  have hother : isUsing s = false ∧ isGlobalAttribute s = false ∧ s.check .namespaceKeyword = true := by
    rw [isUsing, isGlobalAttribute]
    simp [ParserState.check, ParserState.checkWord, hcurrent, hkeyword]
  obtain ⟨husing, hglobal, hspace⟩ := hother
  rw [husing, if_neg Bool.false_ne_true, hglobal, if_neg Bool.false_ne_true, hspace, if_pos rfl]
  have hspace : Delivers all i all.length (fun n : NamespaceDecl => n.path = t.name :: names ∧
      Holds P ⟨n.usings, [], n.members⟩) namespaceDecl := by
    refine .congr (p := namespaceDeclOf namespaceDecl) ?_ fun s _ => congrFun (namespaceDecl_recurs.eq ()) s
    refine .expect hu hkeyword <| .ident hfirst hkind ?_
    refine (hnames _ hmore (by rw [hnext]; decide)).many.bind fun list hlist => .eat hend hsemicolon ?_
    extract_lets rest
    rw [if_pos rfl]
    have hbody : Delivers all (i + 1 + 1 + more.length + 1) all.length (Holds P)
        (namespaceBody namespaceDecl false) :=
      hrest.many.bind fun _ hparts => .pure hparts
    refine hbody.bind fun body hbody => .someSpan fun span => .pure ⟨?_, hbody⟩
    rw [NamespaceDeclOf.path, List.map_cons, hlist]
  exact hspace.bind fun n hn => .pure ⟨List.forall_mem_nil _, n, rfl, hn.1, hn.2⟩

/-! ### Files -/

/-- The only member is a declaration, or a namespace with this path that has it as its only member. -/
def HoldsPart (path : List String) (d : TypeDecl) (members : List NamespaceMember) : Prop :=
  path = [] ∧ members = [.type d] ∨ ∃ n, members = [.space n] ∧ n.path = path ∧ n.members = [.type d]

/-- The tokens of a file that starts with directives and has one declaration, which may be in a namespace. -/
structure FileTokens (path : List String) (kind : TypeKind) (name : String) (params : List String)
    (inner u : List Token) : Prop where
  parts : ∃ (usings : List (List Token)) (space decl : List Token), u = usings.flatten ++ (space ++ decl) ∧
    (∀ u ∈ usings, UsingTokens u) ∧
    (path = [] ∧ space = [] ∨ SpaceTokens path space) ∧ DeclTokens kind name params inner decl

/-- A file is read from its tokens. -/
theorem FileTokens.delivers {path : List String} (ordered : Token.InOrder all)
    (h : FileTokens path kind name params inner all) (hinner : AreMembers Q inner) :
    Delivers all 0 all.length (fun file => (∀ d ∈ file.usings, d.isGlobal = false) ∧
      ∃ d, DeclaresPart kind name params d ∧ Q all d.members ∧ HoldsPart path d file.members)
        sourceFile := by
  obtain ⟨usings, space, decl, hall, husings, hspace, hdecl⟩ := h
  have hstart : all.drop 0 = usings.flatten ++ (space ++ decl) := hall
  have hbehind := drop_of_append hstart
  have htype := deliversAll_type ordered hdecl hinner (drop_of_append hbehind)
  have hrest : DeliversAll all (0 + usings.flatten.length) all.length (fun parts => Holds (fun members =>
      ∃ d, DeclaresPart kind name params d ∧ Q all d.members ∧ HoldsPart path d members) (.concat parts))
        (namespaceRound false) := by
    rcases hspace with ⟨rfl, rfl⟩ | hspace
    · refine htype.mono fun parts hparts => ⟨hparts.1, ?_⟩
      obtain ⟨d, hmembers, hpart, hQ⟩ := hparts.2
      exact ⟨d, hpart, hQ, .inl ⟨rfl, hmembers⟩⟩
    · refine (deliversAll_space hspace hbehind htype).mono fun parts hparts => ⟨hparts.1, ?_⟩
      obtain ⟨n, hmembers, hpath, -, d, hinside, hpart, hQ⟩ := hparts.2
      exact ⟨d, hpart, hQ, .inr ⟨n, hmembers, hpath, hinside⟩⟩
  have hbody := (deliversAll_usings husings hstart hrest).many
  refine .get fun s _ => ?_
  have hread : Delivers all 0 all.length (Holds fun members =>
      ∃ d, DeclaresPart kind name params d ∧ Q all d.members ∧ HoldsPart path d members)
        (namespaceBody namespaceDecl false) := hbody.bind fun _ hparts => .pure hparts
  exact hread.bind fun body hbody => .pure ⟨hbody.1, hbody.2⟩

/-- The tree of a source with such tokens. -/
theorem parse_of_tokens {path : List String} {source : SourceId} {text : String}
    (errors : (TokenStream.ofText text).errors = [])
    (h : FileTokens path kind name params inner (TokenStream.ofText text).tokens)
    (hinner : AreMembers Q inner) :
    ∃ file, SourceFile.parse source text = .ok file ∧ (∀ d ∈ file.usings, d.isGlobal = false) ∧
      ∃ d, DeclaresPart kind name params d ∧ Q (TokenStream.ofText text).tokens d.members ∧
        HoldsPart path d file.members :=
  parse_of_delivers errors (h.delivers (TokenStream.inOrder text) hinner)

end Graft.Parser
