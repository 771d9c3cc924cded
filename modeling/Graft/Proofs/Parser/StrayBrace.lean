/-
Module: Graft.Proofs.Parser.StrayBrace
Purpose: What a stray closing brace in front of a source costs.
Main exports: TokenStream.leftover, SourceFile.exists_later, SourceFile.ofText_strayBrace

The brace is reported, and recovery then looks for the end of a member or for a declaration as behind any
other error.  So what comes first in the source is passed with the brace, and what is left is read as a
source of its own.
-/
import Graft.Proofs.Parser.Earlier
import Graft.Proofs.Parser.Recovery
import Graft.Proofs.Token.Canonical
import Graft.Proofs.Token.Relocated

namespace Graft

open Skip (startsDeclaration resumeLength)
open NamespaceBody (concat)

theorem ParserState.errors_ofText {source : SourceId} {text : String}
    (errors : (TokenStream.ofText text).errors = []) :
    (ofText source text).errors = [] := by
  rw [ofText, errors]
  rfl

namespace TokenStream

/-- The text of the tokens at which reading goes on after an error at the start. -/
def leftover (text : String) : String :=
  joined ((ofText text).tokens.drop (resumeLength true (ofText text).tokens).count)

/-- The text of the last tokens of a source is made of these tokens. -/
theorem ofText_joined_drop {text : String} (clean : (ofText text).errors = []) (n : Nat) :
    (ofText (joined ((ofText text).tokens.drop n))).errors = [] ∧
      (ofText (joined ((ofText text).tokens.drop n))).tokens.map Token.mark =
        ((ofText text).tokens.drop n).map Token.mark := by
  obtain ⟨toks, stop, hstream, hmarks⟩ := ofText_of_spells
    (spells_joined fun t ht => exists_alone clean (List.mem_of_mem_drop ht))
  rw [hstream]
  exact ⟨rfl, hmarks⟩

end TokenStream

namespace Parser

variable {source : SourceId} {text : String} {s t u : ParserState} {parts : List NamespaceBody}

/-- What is left of a source is read as the items where reading goes on. -/
theorem Resumed.ofText_leftover (h : Resumed source (TokenStream.ofText text).tokens 0 parts u)
    (clean : u.errors = []) (errors : (TokenStream.ofText text).errors = []) :
    (SourceFile.ofText source (TokenStream.leftover text)).2 = [] ∧
      (SourceFile.ofText source (TokenStream.leftover text)).1.usings.map (·.unplaced) =
        (concat parts).usings.map (·.unplaced) ∧
      (SourceFile.ofText source (TokenStream.leftover text)).1.members.map (·.unplaced) =
        (concat parts).members.map (·.unplaced) := by
  obtain ⟨j, t, -, hcount, hclean, hitems⟩ := h
  rw [List.drop_zero, Nat.sub_zero] at hcount
  subst hcount
  obtain ⟨herrors, htokens⟩ := TokenStream.ofText_joined_drop errors
    (resumeLength true (TokenStream.ofText text).tokens).count
  exact hclean.ofText_eq hitems clean herrors htokens

/-- A closing brace where an item should stand is reported, and reading goes on behind it. -/
theorem namespaceRound_stray (h : s.check .rightBrace = true) : namespaceRound false s =
    .ok (some .empty) ((s.pass 1).record ⟨.stray s.current.lexeme, s.current.span⟩).synchronize := by
  have hkind := kind_of_check h
  have hother : isUsing s = false ∧ isGlobalAttribute s = false ∧ s.check .namespaceKeyword = false := by
    simp [isUsing, isGlobalAttribute, ParserState.check, ParserState.checkWord, hkind]
  obtain ⟨husing, hglobal, hspace⟩ := hother
  have hitem : namespaceItem namespaceDecl s = .error ⟨.stray s.current.lexeme, s.current.span⟩
      (s.pass 1) := by
    change (if isUsing s then _ else if isGlobalAttribute s then _ else
      if s.check .namespaceKeyword then _ else
      if s.check .rightBrace then _ else _ : Parser NamespaceBody) s = _
    rw [husing, hglobal, hspace, h]
    rfl
  have hrecovering : recovering .empty (namespaceItem namespaceDecl) s =
      .ok .empty ((s.pass 1).record ⟨.stray s.current.lexeme, s.current.span⟩).synchronize := by
    change EStateM.tryCatch (namespaceItem namespaceDecl) _ s = _
    unfold EStateM.tryCatch
    dsimp only
    rw [hitem]
    rfl
  rw [namespaceRound_of_more (ParserState.atEnd_of_check (by decide) h)]
  exact bind_eq hrecovering _

/-- A parser that does not panic reports an error and stands behind what is passed after it. -/
theorem synchronize_record (calm : s.panicking = false)
    (closed : (resumeLength false s.unread).unclosed = false) (e : ParseError) : (s.record e).synchronize =
      { s.pass (resumeLength false s.unread).count with errors := s.errors ++ [e], panicking := false } := by
  have hrecord : s.record e = { s.report e with panicking := true } := by
    rw [ParserState.record, calm]
    rfl
  rw [hrecord, ParserState.synchronize, ParserState.passDistance]
  change (if (resumeLength false s.unread).unclosed then _ else _ : ParserState) = _
  rw [closed, if_neg Bool.false_ne_true]
  rfl

/-- The error about a closing brace at the start of a source. -/
def strayBrace : ParseError := ⟨.stray "\x7d", ⟨0, 1, 1, 1⟩⟩

/-- Behind the stray brace reading goes on as at the start of what is left of the source. -/
theorem exists_recovered (errors : (TokenStream.ofText text).errors = [])
    (balanced : Skip.Balanced (TokenStream.ofText text).tokens)
    (plain : text.toList.head? ≠ some '\ufeff') (noDirective : ¬Text.StartsDirective text.toList)
    (start : startsDeclaration (ParserState.ofText source text).current.kind = false) :
    ∃ r : ParserState, r.Alike (.ofText source (TokenStream.leftover text)) ∧
      namespaceRound false (.ofText source ("\x7d " ++ text)) =
        .ok (some .empty) (r.withEarlier [strayBrace]) := by
  obtain ⟨toks, htokens, hmarks, hcauses⟩ := TokenStream.ofText_behindBrace plain noDirective
  have hkinds : toks.map Token.kind = (TokenStream.ofText text).tokens.map Token.kind := by
    have hfst := congrArg (List.map Prod.fst) hmarks
    rwa [List.map_map, List.map_map] at hfst
  have hlength : resumeLength false toks =
      .closed (resumeLength true (TokenStream.ofText text).tokens).count := by
    rw [Skip.resumeLength_congr hkinds, Skip.resumeLength_false]
    · exact congrArg (Skip.Distance.mk _) (Skip.closed_resumeLength balanced true)
    · intro t ht
      obtain ⟨rest, hrest⟩ := List.head?_eq_some_iff.1 ht
      exact current_of_unread (s := .ofText source text) hrest ▸ start
  obtain ⟨hleft, hlefttokens⟩ := TokenStream.ofText_joined_drop errors
    (resumeLength true (TokenStream.ofText text).tokens).count
  have hclean : (ParserState.ofText source ("\x7d " ++ text)).errors = [] := by
    rw [errors, List.map_nil, List.map_eq_nil_iff] at hcauses
    exact ParserState.errors_ofText hcauses
  have hunread : (ParserState.ofText source ("\x7d " ++ text)).unread =
      ⟨.rightBrace, "\x7d", ⟨0, 1, 1, 1⟩⟩ :: toks :=
    htokens
  have hcalm : ((ParserState.ofText source ("\x7d " ++ text)).pass 1).panicking = false := rfl
  refine ⟨{ ((ParserState.ofText source ("\x7d " ++ text)).pass 1).pass
    (resumeLength true (TokenStream.ofText text).tokens).count with errors := [] },
    ⟨rfl, ?_, ?_, rfl, rfl⟩, ?_⟩
  · change (((ParserState.ofText source ("\x7d " ++ text)).pass 1).unread.drop _).map Token.mark = _
    rw [unread_pass_one hunread, List.map_drop, hmarks, ← List.map_drop, ← hlefttokens]
    rfl
  · have hstart : (ParserState.ofText source (TokenStream.leftover text)).errors = [] :=
      ParserState.errors_ofText hleft
    rw [hstart]
  · have hcurrent := current_of_unread hunread
    have hpassed := unread_pass_one hunread
    rw [namespaceRound_stray (by rw [ParserState.check, hcurrent]; rfl), hcurrent, synchronize_record hcalm]
    · rw [hpassed, hlength, show ((ParserState.ofText source ("\x7d " ++ text)).pass 1).errors = []
        from hclean]
      rfl
    · rw [hpassed, hlength]
      rfl

end Parser

namespace SourceFile

variable {source : SourceId} {text : String} {file : SourceFile}

/-- Behind a stray brace what is left of a source is read as by itself. -/
theorem exists_later (errors : (TokenStream.ofText text).errors = [])
    (balanced : Skip.Balanced (TokenStream.ofText text).tokens) (plain : text.toList.head? ≠ some '\ufeff')
    (noDirective : ¬Text.StartsDirective text.toList)
    (start : startsDeclaration (ParserState.ofText source text).current.kind = false) :
    ∃ later, (ofText source ("\x7d " ++ text)).2 = Parser.strayBrace :: later ∧
      later.map ParseError.unplaced = (ofText source (TokenStream.leftover text)).2.map ParseError.unplaced ∧
      (ofText source ("\x7d " ++ text)).1.unplaced =
      (ofText source (TokenStream.leftover text)).1.unplaced := by
  obtain ⟨r, halike, hround⟩ := Parser.exists_recovered errors balanced plain noDirective start
  obtain ⟨parts, u, hitems, -⟩ := Parser.exists_items (r.withEarlier [Parser.strayBrace])
  have hshorter := ((Parser.namespaceRound_outcome false _).of_ok hround).2 rfl
  have hread := ofText_of_ok (Parser.Items.more hround hshorter hitems).sourceFile_eq
  -- the rest is read alike with the brace's error in front, and at other places
  have hblind := Parser.Blind.sourceFile [Parser.strayBrace] r
  have hagrees := Parser.Agrees.sourceFile _ _ halike
  rw [hitems.sourceFile_eq] at hblind
  cases hrest : Parser.sourceFile r with
  | error e v =>
      rw [hrest] at hblind
      cases hblind
  | ok recovered v =>
      rw [hrest] at hblind hagrees
      cases hblind
      cases hleft : Parser.sourceFile (.ofText source (TokenStream.leftover text)) with
      | error e w =>
          rw [hleft] at hagrees
          cases hagrees
      | ok left w =>
          rw [hleft] at hagrees
          cases hagrees with
          | ok alike related =>
              rw [hread, ofText_of_ok hleft]
              refine ⟨v.errors, rfl, unplaced_errors alike.errors, Eq.trans ?_ related⟩
              change SourceFile.mk source _ _ _ _ = SourceFile.mk r.source _ _ _ _
              rw [halike.source]
              rfl

/-- The using directives, namespaces and types of a source without the places of their parts. -/
def declared (f : SourceFile) : List UsingDirective × List NamespaceMember :=
  (f.usings.map (·.unplaced), f.members.map (·.unplaced))

theorem declared_of_unplaced {f g : SourceFile} (h : f.unplaced = g.unplaced) : f.declared = g.declared := by
  obtain ⟨-, husings, -, hmembers, -⟩ := SourceFile.mk.inj h
  exact Prod.ext husings hmembers

/-- A stray closing brace in front of a source is reported first, and reading goes on behind what recovery
passes: up to the first semicolon outside brackets, the first group in braces, or the first keyword that
starts a declaration outside brackets.  Where nothing else, a using directive, or a declaration with such a
keyword stands behind the attributes of the whole program, only that directive, or the attributes and
modifiers of that declaration, are lost. -/
theorem ofText_strayBrace (accepted : parse source text = .ok file)
    (plain : text.toList.head? ≠ some '\ufeff') (noDirective : ¬Text.StartsDirective text.toList)
    (start : startsDeclaration (ParserState.ofText source text).current.kind = false) :
    let read := ofText source ("\x7d " ++ text)
    let left := ofText source (TokenStream.leftover text)
    let opening := Parser.stateAfter Parser.globalAttributes (.ofText source text)
    (∃ later, read.2 = Parser.strayBrace :: later ∧
        later.map ParseError.unplaced = left.2.map ParseError.unplaced ∧
        read.1.unplaced = left.1.unplaced) ∧
      (opening.atEnd = true → read.2 = [Parser.strayBrace] ∧ read.1.declared = file.declared) ∧
      (Parser.isUsing opening = true →
        read.2 = [Parser.strayBrace] ∧ read.1.declared = (file.declared.1.tail, file.declared.2)) ∧
      (startsDeclaration (Parser.stateAfter Parser.memberHead opening).current.kind = true →
        read.2 = [Parser.strayBrace] ∧
          read.1.declared = (file.declared.1, file.declared.2.modifyHead NamespaceMember.undecorated)) := by
  intro read left opening
  obtain ⟨t, hrun, herrors⟩ := exists_of_parse accepted
  obtain ⟨parts, u, hitems, -⟩ := Parser.exists_items (.ofText source text)
  obtain ⟨rfl, rfl⟩ := EStateM.Result.ok.inj (hitems.sourceFile_eq.symm.trans hrun)
  have hclean := hitems.errors_eq_nil herrors
  have hlex : (TokenStream.ofText text).errors = [] := List.map_eq_nil_iff.1 hclean
  have hstands := ParserState.Stands.ofText source text
  -- the attributes of the whole program are passed first, and what stands behind them decides the case
  obtain ⟨lists, j, o, rest, hbehind⟩ :=
    Parser.Clean.globalAttributes ⟨hstands, rfl, rfl, hclean⟩ hitems herrors
  obtain rfl : opening = o := Parser.stateAfter_of_ok hbehind.reads.many_eq
  have hlater := exists_later hlex (TokenStream.balanced_of_parse accepted) plain noDirective start
  -- what is left of the source is read without an error if it is made of items that
  -- were read from the source
  have hcost : ∀ parts, Parser.Resumed source (TokenStream.ofText text).tokens j parts u →
      read.2 = [Parser.strayBrace] ∧
        read.1.declared = ((concat parts).usings.map (·.unplaced),
        (concat parts).members.map (·.unplaced)) := by
    intro parts hresumed
    obtain ⟨hnone, husings, hmembers⟩ :=
      (hresumed.behind hbehind.le hbehind.passed).ofText_leftover herrors hlex
    obtain ⟨later, hread, herrors', htree⟩ := hlater
    rw [hnone, List.map_nil, List.map_eq_nil_iff] at herrors'
    exact ⟨by rw [← herrors']; exact hread, (declared_of_unplaced htree).trans (Prod.ext husings hmembers)⟩
  refine ⟨hlater, fun hend => ?_, fun husing => ?_, fun hstart => ?_⟩
  · obtain ⟨herrors, hdeclared⟩ := hcost _ (hbehind.clean.resumed_end hbehind.items hend)
    rw [← hbehind.usings, ← hbehind.members] at hdeclared
    exact ⟨herrors, hdeclared⟩
  · obtain ⟨decl, more, rfl, hresumed⟩ := hbehind.clean.resumed_using hbehind.items herrors husing
    obtain ⟨hread, hdeclared⟩ := hcost _ hresumed
    refine ⟨hread, hdeclared.trans ?_⟩
    rw [declared]
    dsimp only
    rw [hbehind.usings, hbehind.members]
    rfl
  · obtain ⟨more, hresumed, husings, hmembers⟩ :=
      hbehind.clean.resumed_declaration hbehind.items herrors hbehind.other hstart
    obtain ⟨hread, hdeclared⟩ := hcost _ hresumed
    refine ⟨hread, hdeclared.trans ?_⟩
    rw [husings, hmembers, ← hbehind.usings, ← hbehind.members]
    exact Prod.ext rfl (NamespaceMember.map_unplaced_modifyHead_undecorated _)

/-! ### Sample sources -/

/-- The sources below are read without errors, and have a list of attributes, a directive or the attributes
of a declaration at the start. -/
theorem sampleSources_read :
    ((ofText ⟨0⟩ "[assembly: A]").2 = [] ∧
      startsDeclaration (ParserState.ofText ⟨0⟩ "[assembly: A]").current.kind = false ∧
      (Parser.stateAfter Parser.globalAttributes (.ofText ⟨0⟩ "[assembly: A]")).atEnd = true) ∧
    ((ofText ⟨0⟩ "global using A; enum B \x7b \x7d").2 = [] ∧
      startsDeclaration (ParserState.ofText ⟨0⟩ "global using A; enum B \x7b \x7d").current.kind = false ∧
      Parser.isUsing (Parser.stateAfter Parser.globalAttributes
        (.ofText ⟨0⟩ "global using A; enum B \x7b \x7d")) = true) ∧
    ((ofText ⟨0⟩ "[assembly: A] [B] public class C \x7b \x7d").2 = [] ∧
      startsDeclaration
        (ParserState.ofText ⟨0⟩ "[assembly: A] [B] public class C \x7b \x7d").current.kind = false ∧
      startsDeclaration (Parser.stateAfter Parser.memberHead (Parser.stateAfter Parser.globalAttributes
        (.ofText ⟨0⟩ "[assembly: A] [B] public class C \x7b \x7d"))).current.kind = true) ∧
    (ofText ⟨0⟩ "using A; class B \x7b \x7d").2 = [] ∧
      (ofText ⟨0⟩ "using A; class B \x7b \x7d").1.usings.length = 1 ∧
      (ofText ⟨0⟩ ("\x7d " ++ "using A; class B \x7b \x7d")).1.usings.isEmpty = true := by
  decide +kernel

/-- A stray brace before an attribute list of the file costs nothing, before a directive that directive, and
before the first declaration its attribute lists and modifiers. -/
theorem ofText_strayBrace_openings :
    (∃ file, parse ⟨0⟩ "[assembly: A]" = .ok file ∧
      (ofText ⟨0⟩ ("\x7d " ++ "[assembly: A]")).2 = [Parser.strayBrace] ∧
      (ofText ⟨0⟩ ("\x7d " ++ "[assembly: A]")).1.declared = file.declared) ∧
    (∃ file, parse ⟨0⟩ "global using A; enum B \x7b \x7d" = .ok file ∧
      (ofText ⟨0⟩ ("\x7d " ++ "global using A; enum B \x7b \x7d")).2 = [Parser.strayBrace] ∧
      (ofText ⟨0⟩ ("\x7d " ++ "global using A; enum B \x7b \x7d")).1.declared =
        (file.declared.1.tail, file.declared.2)) ∧
    ∃ file, parse ⟨0⟩ "[assembly: A] [B] public class C \x7b \x7d" = .ok file ∧
      (ofText ⟨0⟩ ("\x7d " ++ "[assembly: A] [B] public class C \x7b \x7d")).2 = [Parser.strayBrace] ∧
      (ofText ⟨0⟩ ("\x7d " ++ "[assembly: A] [B] public class C \x7b \x7d")).1.declared =
        (file.declared.1, file.declared.2.modifyHead NamespaceMember.undecorated) := by
  obtain ⟨⟨herrors, hstart, hend⟩, ⟨herrors', hstart', husing⟩, ⟨herrors'', hstart'', hkeyword⟩, -⟩ :=
    sampleSources_read
  refine ⟨⟨_, parse_of_errors herrors, ?_⟩, ⟨_, parse_of_errors herrors', ?_⟩,
    ⟨_, parse_of_errors herrors'', ?_⟩⟩
  · exact (ofText_strayBrace (parse_of_errors herrors) (by decide) (by decide) hstart).2.1 hend
  · exact (ofText_strayBrace (parse_of_errors herrors') (by decide) (by decide) hstart').2.2.1 husing
  · exact (ofText_strayBrace (parse_of_errors herrors'') (by decide) (by decide) hstart'').2.2.2 hkeyword

/-- A using directive at the start of a source is lost behind a stray closing brace. -/
theorem ofText_strayBrace_using :
    ∃ file, parse ⟨0⟩ "using A; class B \x7b \x7d" = .ok file ∧ file.usings.length = 1 ∧
      (ofText ⟨0⟩ ("\x7d " ++ "using A; class B \x7b \x7d")).1.usings = [] := by
  obtain ⟨-, -, -, herrors, hone, hlost⟩ := sampleSources_read
  exact ⟨_, parse_of_errors herrors, hone, List.isEmpty_iff.1 hlost⟩

end SourceFile

end Graft
