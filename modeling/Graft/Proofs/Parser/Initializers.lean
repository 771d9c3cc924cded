/-
Module: Graft.Proofs.Parser.Initializers
Purpose: Initial values that are new values of generic types.
Main exports: Parser.IsType, TokenStream.CommaListed, SourceFile.parse_genericNew

Such a value is passed up to a comma or semicolon outside all brackets.  Angle brackets are none, so a comma
between type arguments ends the value.  A type consists of names, commas, suffixes and properly nested
brackets, so nothing else in the arguments matters.
-/
import Graft.Proofs.Parser.Commas
import Graft.Proofs.Parser.LoneField
import Graft.Proofs.Parser.TypeTokens

namespace Graft

open Token (SplitsAtComma)

namespace Parser

variable {s : ParserState}

/-! ### Generic names -/

/-- A text that is read as a type to its end, without errors. -/
def IsType (source : SourceId) (text : String) : Prop :=
  ∃ type t, Parser.type (.ofText source text) = .ok type t ∧ t.atEnd = true ∧ t.errors = []

instance (source : SourceId) (text : String) : Decidable (IsType source text) :=
  match h : Parser.type (.ofText source text) with
  | .ok type t => decidable_of_iff (t.atEnd = true ∧ t.errors = [])
      ⟨fun ht => ⟨type, t, h, ht⟩, fun ⟨_, _, h', ht⟩ => by cases h.symm.trans h'; exact ht⟩
  | .error _ _ => .isFalse fun ⟨_, _, h', _⟩ => by cases h.symm.trans h'

/-- A type consists of tokens that types are written with. -/
theorem IsType.ofType {source : SourceId} {text : String} (h : IsType source text) :
    Token.OfType (TokenStream.ofText text).tokens := by
  obtain ⟨type, t, hrun, hend, -⟩ := h
  obtain ⟨passed, hpassed, hall⟩ := (Takes.type (.ofText source text)).of_ok hrun
  rw [ParserState.atEnd_iff.1 hend, List.append_nil] at hpassed
  change (TokenStream.ofText text).tokens = passed at hpassed
  rwa [hpassed]

/-- The tokens of a generic name with arguments and of the parentheses behind it. -/
inductive GenericCall (args : List Token) : List Token → Prop where
  | intro {name : List Token} {less greater left right : Token}
      (hname : ∀ t ∈ name, t.kind ∈ [TokenKind.identifier, .dot, .doubleColon]) (hless : less.kind = .less)
      (hgreater : greater.kind = .greater) (hleft : left.kind = .leftParen)
      (hright : right.kind = .rightParen) :
      GenericCall args (name ++ less :: (args ++ [greater, left, right]))

namespace GenericCall

variable {args value all : List Token} {name : Token}

/-- A search for the end of the value goes on behind the angle bracket. -/
theorem untilLength_name {first less : Token} {name : List Token} (hfirst : first.kind = .modifier)
    (hname : ∀ t ∈ name, t.kind ∈ [TokenKind.identifier, .dot, .doubleColon]) (hless : less.kind = .less)
    (v : List Token) : Skip.untilLength [.comma, .semicolon] 0 (first :: (name ++ less :: v)) =
      .after (name.length + 2) (Skip.untilLength [.comma, .semicolon] 0 v) := by
  have hplain : ∀ k ∈ [TokenKind.modifier, .identifier, .dot, .doubleColon, .less],
      k ∉ [TokenKind.comma, .semicolon] ∧ k.isOpener = false ∧ k.isCloser = false := by decide
  have h : ∀ t ∈ first :: (name ++ [less]), t.kind ∉ [TokenKind.comma, .semicolon] ∧
      t.kind.isOpener = false ∧ t.kind.isCloser = false := by
    intro t ht
    refine hplain _ ?_
    rcases List.mem_cons.1 ht with rfl | ht
    · simp [hfirst]
    · rcases List.mem_append.1 ht with ht | ht
      · exact List.mem_cons_of_mem _ (List.mem_append_left [TokenKind.less] (hname t ht))
      · simp [List.mem_singleton.1 ht, hless]
  have hlength := Skip.untilLength_plain h v
  rwa [List.cons_append, List.append_assoc, List.singleton_append, List.length_cons,
    List.length_append] at hlength

/-- Without a comma outside brackets in the arguments the value is kept as a whole. -/
theorem sourceFile_whole (call : GenericCall args value) (h : LoneVariable name value all)
    (hargs : Token.OfType args) (whole : ¬SplitsAtComma args) (ordered : Token.InOrder all)
    (hs : s.Stands all 0) :
    Outcome (fun file t => ∃ decl m, file.members = [.type decl] ∧ decl.members = [m] ∧
      m.LoneUnsupported all name.name 6 (value.length + 7) ∧ t.errors = s.errors)
        (fun _ => False) sourceFile s := by
  refine h.sourceFile_semicolon (fun first semicolon hfirst hsemicolon behind => ?_) ordered hs
  cases call with
  | @intro name less greater left right hname hless hgreater hleft hright =>
      have hend : Skip.untilLength [.comma, .semicolon] 0 (greater :: left :: right :: semicolon :: behind) =
          .closed 3 := by
        simp [Skip.untilLength, Skip.depthAfter, hgreater, hleft, hright, hsemicolon, TokenKind.isOpener,
          TokenKind.isCloser]
      have hnone := (Skip.untilLength_comma hargs.nested (hargs.kind_ne rfl)).resolve_left (by
        rintro ⟨before, comma, after, hsplit, hcomma, hbefore, -⟩
        exact whole ⟨before, comma, after, hsplit, hcomma, hbefore⟩)
      have hassoc : name ++ less :: (args ++ [greater, left, right]) ++ semicolon :: behind =
          name ++ less :: (args ++ greater :: left :: right :: semicolon :: behind) := by simp
      rw [hassoc, untilLength_name hfirst hname hless, hnone.2, hend, Skip.after_closed, Skip.after_closed]
      simp only [List.length_append, List.length_cons, List.length_nil]
      congr 1
      omega

/-- With a comma outside brackets in the arguments there are errors. -/
theorem sourceFile_split (call : GenericCall args value) (h : LoneVariable name value all)
    (hargs : Token.OfType args) (split : SplitsAtComma args) (hunread : s.unread = all)
    (calm : s.panicking = false) :
    Outcome (fun _ t => t.errors ≠ []) (fun t => t.errors ≠ []) sourceFile s := by
  cases call with
  | @intro name less greater left right hname hless hgreater hleft hright =>
      obtain ⟨before, comma, after, rfl, hcomma, -, hlength⟩ :=
        (Skip.untilLength_comma hargs.nested (hargs.kind_ne rfl)).resolve_right fun h => h.1 split
      have hassoc : name ++ less :: (before ++ comma :: after ++ [greater, left, right]) =
          name ++ less :: before ++ comma :: (after ++ [greater, left, right]) := by simp
      rw [hassoc] at h
      refine h.sourceFile_comma (fun first v hfirst => ?_) ?_ hunread calm
      · have hassoc : name ++ less :: before ++ (comma :: (after ++ [greater, left, right]) ++ v) =
            name ++ less :: (before ++ comma :: after ++ greater :: left :: right :: v) := by simp
        rw [hassoc, untilLength_name hfirst hname hless, hlength, Skip.after_closed, List.length_append,
          List.length_cons]
        congr 1
        omega
      · refine ⟨comma :: after, greater, [left, right], rfl, hgreater, fun t ht => ?_⟩
        have hmem : t ∈ before ++ comma :: after := List.mem_append_right _ ht
        exact ⟨hargs.kind_ne rfl t hmem, hargs.kind_ne rfl t hmem⟩

end GenericCall

end Parser

/-! ### Type arguments in a text -/

/-- The spellings of the tokens of the texts, with commas between the texts. -/
def TokenStream.listed : List String → List (TokenKind × String)
  | [] => []
  | [text] => (ofText text).tokens.map Token.mark
  | text :: rest => (ofText text).tokens.map Token.mark ++ (.comma, ",") :: listed rest

/-- There is more than one type, or a comma in a type stands outside all round and square brackets. -/
def TokenStream.CommaListed (types : List String) : Prop :=
  2 ≤ types.length ∨ ∃ text ∈ types, SplitsAtComma (ofText text).tokens

/-- The spellings of the tokens of a class whose one variable is a new value of a generic type. -/
def SourceFile.genericField (name : List (TokenKind × String)) (types : List String) :
    List (TokenKind × String) :=
  (.classKeyword, "class") :: (.identifier, "C") :: (.leftBrace, "\x7b") :: (.predefinedType, "object") ::
  (.identifier, "f") :: (.equal, "=") :: (.modifier, "new") ::
  (name ++ (.less, "<") ::
    (TokenStream.listed types ++ [(.greater, ">"), (.leftParen, "("), (.rightParen, ")")]) ++
    [(.semicolon, ";"), (.rightBrace, "\x7d")])

namespace Parser

open TokenStream (listed CommaListed)

/-- Types between commas consist of tokens that types are written with. -/
theorem ofType_listed {source : SourceId} {types : List String}
    (htypes : ∀ text ∈ types, IsType source text) :
    ∀ {args : List Token}, args.map Token.mark = listed types → Token.OfType args := by
  induction types with
  | nil =>
      intro args h
      rw [List.map_eq_nil_iff.1 h]
      exact .nil
  | cons text rest ih =>
      intro args h
      have hfirst := (htypes text List.mem_cons_self).ofType
      cases rest with
      | nil => exact hfirst.congr (map_kind_of_mark h)
      | cons next rest =>
          obtain ⟨first, _, rfl, hmarks, h⟩ := List.map_eq_append_iff.1 h
          obtain ⟨comma, later, rfl, hcomma, hlater⟩ := List.map_eq_cons_iff.1 h
          have hkind : comma.kind = .comma := congrArg Prod.fst hcomma
          have hlast := ih (fun text ht => htypes text (List.mem_cons_of_mem _ ht)) hlater
          rw [List.append_cons]
          exact ((hfirst.congr (map_kind_of_mark hmarks)).append
            (.single (by rw [hkind]; rfl) (by rw [hkind]; rfl) (by rw [hkind]; rfl))).append hlast

/-- Where a comma stands outside all brackets in types between commas. -/
theorem splitsAtComma_listed {source : SourceId} {types : List String}
    (htypes : ∀ text ∈ types, IsType source text) {args : List Token}
    (h : args.map Token.mark = listed types) :
    SplitsAtComma args ↔ CommaListed types := by
  match types with
  | [] =>
      rw [List.map_eq_nil_iff.1 h]
      constructor
      · rintro ⟨before, comma, after, hsplit, -⟩
        simp at hsplit
      · rintro (hlength | ⟨text, hmem, -⟩)
        · simp at hlength
        · cases hmem
  | [text] =>
      have hkinds := map_kind_of_mark h
      constructor
      · exact fun hsplit => .inr ⟨text, List.mem_singleton_self _, hsplit.congr hkinds.symm⟩
      · rintro (hlength | ⟨_, hmem, hsplit⟩)
        · simp at hlength
        · rw [List.mem_singleton.1 hmem] at hsplit
          exact hsplit.congr hkinds
  | text :: next :: rest =>
      refine iff_of_true ?_ (.inl (by simp))
      obtain ⟨first, _, rfl, hmarks, h⟩ := List.map_eq_append_iff.1 h
      obtain ⟨comma, later, rfl, hcomma, -⟩ := List.map_eq_cons_iff.1 h
      have hfirst := (htypes text List.mem_cons_self).ofType
      exact ⟨first, comma, later, rfl, congrArg Prod.fst hcomma,
        (hfirst.congr (map_kind_of_mark hmarks)).nested⟩

/-- The tokens of the class, seen from their spellings. -/
theorem LoneVariable.of_marks {all : List Token} {name : List (TokenKind × String)} {types : List String}
    (hname : ∀ mark ∈ name, mark.1 ∈ [TokenKind.identifier, .dot, .doubleColon])
    (h : all.map Token.mark = SourceFile.genericField name types) :
    ∃ args value field, args.map Token.mark = listed types ∧ GenericCall args value ∧
      LoneVariable field value all ∧ field.name = "f" ∧ all.length = value.length + 9 := by
  have hkind : ∀ {t : Token} {kind text}, t.mark = (kind, text) → t.kind = kind := congrArg Prod.fst
  obtain ⟨keyword, _, rfl, hkeyword, h⟩ := List.map_eq_cons_iff.1 h
  obtain ⟨className, _, rfl, hclass, h⟩ := List.map_eq_cons_iff.1 h
  obtain ⟨opening, _, rfl, hopening, h⟩ := List.map_eq_cons_iff.1 h
  obtain ⟨type, _, rfl, htype, h⟩ := List.map_eq_cons_iff.1 h
  obtain ⟨field, _, rfl, hfield, h⟩ := List.map_eq_cons_iff.1 h
  obtain ⟨equal, _, rfl, hequal, h⟩ := List.map_eq_cons_iff.1 h
  obtain ⟨new, _, rfl, hnew, h⟩ := List.map_eq_cons_iff.1 h
  obtain ⟨value, _, rfl, hvalue, h⟩ := List.map_eq_append_iff.1 h
  obtain ⟨semicolon, _, rfl, hsemicolon, h⟩ := List.map_eq_cons_iff.1 h
  obtain ⟨closing, _, rfl, hclosing, h⟩ := List.map_eq_cons_iff.1 h
  obtain rfl := List.map_eq_nil_iff.1 h
  obtain ⟨called, _, rfl, hcalled, h⟩ := List.map_eq_append_iff.1 hvalue
  obtain ⟨less, _, rfl, hless, h⟩ := List.map_eq_cons_iff.1 h
  obtain ⟨args, _, rfl, hargs, h⟩ := List.map_eq_append_iff.1 h
  obtain ⟨greater, _, rfl, hgreater, h⟩ := List.map_eq_cons_iff.1 h
  obtain ⟨left, _, rfl, hleft, h⟩ := List.map_eq_cons_iff.1 h
  obtain ⟨right, _, rfl, hright, h⟩ := List.map_eq_cons_iff.1 h
  obtain rfl := List.map_eq_nil_iff.1 h
  refine ⟨args, _, field, hargs, .intro (fun t ht => ?_) (hkind hless) (hkind hgreater) (hkind hleft)
    (hkind hright), .intro (hkind hkeyword) (hkind hclass) (hkind hopening)
    ⟨hkind htype, hkind hfield, hkind hequal, hkind hnew⟩ (hkind hsemicolon) (hkind hclosing), ?_, ?_⟩
  · exact hname t.mark (hcalled ▸ List.mem_map_of_mem ht)
  · exact name_of_mark (x := 'f') (by decide) hfield
  · simp only [List.length_cons, List.length_append, List.length_nil]

end Parser

open TokenStream (CommaListed)

namespace SourceFile

/-- Between the angle brackets only a comma counts: with none outside round and square brackets, the value is
kept as a whole, and with one the source is rejected. -/
theorem parse_genericNew (source : SourceId) {text : String} {name : List (TokenKind × String)}
    {types : List String} (clean : (TokenStream.ofText text).errors = [])
    (hmarks : (TokenStream.ofText text).tokens.map Token.mark = genericField name types)
    (hname : ∀ mark ∈ name, mark.1 ∈ [TokenKind.identifier, .dot, .doubleColon])
    (htypes : ∀ type ∈ types, Parser.IsType source type) :
    (¬CommaListed types → ∃ file decl m, parse source text = .ok file ∧ file.members = [.type decl] ∧
      decl.members = [m] ∧ m.LoneUnsupported (TokenStream.ofText text).tokens "f" 6
        ((TokenStream.ofText text).tokens.length - 2)) ∧
    (CommaListed types → ∃ errors, parse source text = .error errors) := by
  obtain ⟨args, value, field, hargs, call, lone, hfield, hlength⟩ :=
    Parser.LoneVariable.of_marks hname hmarks
  have hofType := Parser.ofType_listed htypes hargs
  have hsplits := Parser.splitsAtComma_listed htypes hargs
  have hstart := ParserState.Stands.ofText source text
  have hnone : (ParserState.ofText source text).errors = [] := by
    change (TokenStream.ofText text).errors.map _ = []
    rw [clean, List.map_nil]
  constructor
  · intro whole
    obtain ⟨file, t, hrun, decl, m, hfile, hdecl, hm, herrors⟩ :=
      (call.sourceFile_whole lone hofType (mt hsplits.1 whole) (TokenStream.inOrder text) hstart).exists_ok
    refine ⟨file, decl, m, ?_, hfile, hdecl, ?_⟩
    · rw [parse, ofText, EStateM.run, hrun]
      dsimp only
      rw [herrors, hnone]
    · rw [hfield] at hm
      rwa [hlength]
  · intro split
    have hfail := call.sourceFile_split lone hofType (hsplits.2 split) (s := .ofText source text) rfl rfl
    rw [parse, ofText, EStateM.run]
    cases hrun : Parser.sourceFile (.ofText source text) with
    | ok file t =>
        obtain ⟨e, errors, hcons⟩ := List.exists_cons_of_ne_nil (hfail.of_ok hrun)
        exact ⟨e :: errors, by dsimp only; rw [hcons]⟩
    | error e t =>
        obtain ⟨e', errors, hcons⟩ := List.exists_cons_of_ne_nil (List.append_ne_nil_of_right_ne_nil t.errors
          (List.cons_ne_nil e []))
        exact ⟨e' :: errors, by dsimp only; rw [hcons]⟩

/-- A value of a generic type with one argument. -/
def oneArgument : String := "class C \x7b object f = new G<A>(); \x7d"

/-- A value of a generic type with two arguments. -/
def twoArguments : String := "class C \x7b object f = new G<A, B>(); \x7d"

/-- The value with one argument is kept as a whole, from `new` to the parentheses; the
one with two is an error. -/
theorem parse_genericNew_oneOrTwo :
    (∃ file decl m, parse ⟨0⟩ oneArgument = .ok file ∧ file.members = [.type decl] ∧ decl.members = [m] ∧
      m.LoneUnsupported (TokenStream.ofText oneArgument).tokens "f" 6 13) ∧
    ∃ errors, parse ⟨0⟩ twoArguments = .error errors := by
  have hone := @parse_genericNew ⟨0⟩ oneArgument [(.identifier, "G")] ["A"] (by decide +kernel)
    (by decide +kernel) (by decide) (by decide +kernel)
  have htwo := @parse_genericNew ⟨0⟩ twoArguments [(.identifier, "G")] ["A", "B"] (by decide +kernel)
    (by decide +kernel) (by decide) (by decide +kernel)
  have hlength : (TokenStream.ofText oneArgument).tokens.length = 15 := by decide +kernel
  have hnone : ∀ t ∈ (TokenStream.ofText "A").tokens, t.kind ≠ .comma := by decide +kernel
  have hwhole : ¬CommaListed ["A"] := by
    rintro (hlength | ⟨text, hmem, before, comma, after, hsplit, hcomma, -⟩)
    · simp at hlength
    · rw [List.mem_singleton.1 hmem] at hsplit
      exact hnone comma (by simp [hsplit]) hcomma
  have hkept := hone.1 hwhole
  rw [hlength] at hkept
  exact ⟨hkept, htwo.2 (.inl (by decide))⟩

/-- A value of a generic type with two arguments is rejected although both can be read as types. -/
theorem parse_genericNew_rejected :
    (TokenStream.ofText twoArguments).errors = [] ∧
      (TokenStream.ofText twoArguments).tokens.map Token.mark =
        genericField [(.identifier, "G")] ["A", "B"] ∧
      Parser.IsType ⟨0⟩ "A" ∧ Parser.IsType ⟨0⟩ "B" ∧ ∀ file, parse ⟨0⟩ twoArguments ≠ .ok file := by
  have hfails : (parse ⟨0⟩ twoArguments).isOk = false := by decide +kernel
  refine ⟨by decide +kernel, by decide +kernel, by decide +kernel, by decide +kernel, fun file h => ?_⟩
  rw [h] at hfails
  cases hfails

end SourceFile

end Graft
