/-
Module: Graft.Proofs.Program.Positions
Purpose: Every place in a tree is exact, and the text of a getter is the source between two tokens.
Main exports: Part.Sound, PropertyDecl.GetterAt, SourceFile.spans_exact

A source without errors is read token by token into its parts.  Each part covers the stretch of tokens that
it was read from, so its span can be cut out of the text.
-/
import Graft.Proofs.Parser.Files
import Graft.Program.Members

namespace Graft

open Token (KindAt)

/-! ### Places of parts -/

namespace Part

/-- A part is where its span says. -/
structure Sound (text : String) (p : Part) : Prop where
  /-- The span starts with the first token of the part and ends with the last one. -/
  tokens : ∃ i j, p.span.Over (TokenStream.ofText text).tokens i j ∧
    p.Fits (TokenStream.ofText text).tokens i j
  /-- The span covers some of the text, between characters. -/
  covers : ∃ before covered, p.span.Covers text.toList before covered
  inOrder : ∀ list ∈ p.lists, InOrder list
  /-- What is right below the part stands inside it. -/
  contains : ∀ list ∈ p.lists, ∀ child ∈ list,
    p.span.offset ≤ child.span.offset ∧ child.span.stop ≤ p.span.stop

end Part

namespace Part

variable {text : String} {i j : Nat}

theorem At.sound {p : Part} (h : At (TokenStream.ofText text).tokens i j p) : p.Sound text where
  tokens := ⟨i, j, h.place, h.fits⟩
  covers := h.place.covers
  inOrder list hlist := (h.rows list hlist).inOrder (TokenStream.inOrder text)
  contains list hlist child hchild := by
    obtain ⟨a, b, ha, hb, hat⟩ := (h.rows list hlist).exists_at hchild
    exact h.place.within (TokenStream.inOrder text) hat.place ha hb

end Part

/-- What stands in a source without errors is where its span says. -/
theorem SourceFile.at_of_parse {source : SourceId} {text : String} {file : SourceFile}
    (h : SourceFile.parse source text = .ok file) {p : Part} (hp : file.Holds p) :
    ∃ i j, Part.At (TokenStream.ofText text).tokens i j p := by
  obtain ⟨n, hrows⟩ := SourceFile.row_of_parse h
  obtain ⟨list, hlist, q, hq, hholds⟩ := hp
  obtain ⟨a, b, -, -, hat⟩ := (hrows list hlist).exists_at hq
  obtain ⟨i, j, -, -, hat'⟩ := hat.of_holds hholds
  exact ⟨i, j, hat'⟩

/-! ### Getters -/

variable {all : List Token} {i j : Nat}

/-- Where the getter of a property stands among the tokens. -/
inductive PropertyDecl.GetterAt (all : List Token) (p : PropertyDecl) : GetterForm → Span → Prop where
  /-- From the arrow through the last token before the `;`, which ends the property. -/
  | arrow {a i j : Nat} {span : Span} (body : p.body = .arrow span) (property : p.span.Over all a (j + 1))
      (place : span.Over all i j) (fits : Part.FitsArrow all i j) : GetterAt all p .arrow span
  /-- From the first token behind the opening brace or the accessor before it through the end of the body of
  the first `get` that has one. -/
  | accessor {k i j m : Nat} {earlier later : List AccessorDecl} {a : AccessorDecl}
      (body : p.body = .accessors (earlier ++ a :: later)) (get : a.kind = .get) (bodied : a.body ≠ .missing)
      (first : ∀ b ∈ earlier, ¬(b.kind = .get ∧ b.body ≠ .missing)) (brace : KindAt all k .leftBrace)
      (before : Part.Tiled (Part.AccessorOver all) (k + 1) i earlier) (place : a.span.Over all i j)
      (fits : Part.FitsAccessor all i j a) (after : Part.Tiled (Part.AccessorOver all) j m later)
      (close : KindAt all m .rightBrace) : GetterAt all p .accessor a.span

/-- Items without a gap are so before and behind each of them. -/
theorem Part.Tiled.split {α : Type} {P : Nat → Nat → α → Prop} {earlier later : List α} {a : α}
    (h : Tiled P i j (earlier ++ a :: later)) :
    ∃ k m, Tiled P i k earlier ∧ P k m a ∧ Tiled P m j later := by
  induction earlier generalizing i with
  | nil =>
      cases h with
      | cons first later => exact ⟨_, _, .nil, first, later⟩
  | cons b rest ih =>
      cases h with
      | cons first later =>
          obtain ⟨k, m, hbefore, hitem, hafter⟩ := ih later
          exact ⟨k, m, .cons first hbefore, hitem, hafter⟩

theorem PropertyDecl.getterAt {p : PropertyDecl} (hat : Part.At all i j (.member (.property p)))
    {form : GetterForm} {span : Span} (h : p.getter? = some (form, span)) : p.GetterAt all form span := by
  obtain ⟨-, -, _, _, k, -, -, -, hfits⟩ := hat.fits
  have hlt := hat.place.lt
  unfold PropertyDecl.getter? at h
  split at h
  · rename_i arrow hbody
    cases h
    rw [hbody] at hfits
    obtain ⟨-, hover, harrow⟩ := hfits
    refine .arrow hbody (?_ : p.span.Over all i (j - 1 + 1)) hover harrow
    rw [Nat.sub_add_cancel (by omega)]
    exact hat.place
  · rename_i list hbody
    obtain ⟨a, ha, hspan⟩ := Option.map_eq_some_iff.1 h
    cases hspan
    obtain ⟨hget, earlier, later, rfl, hfirst⟩ := List.find?_eq_some_iff_append.1 ha
    rw [hbody] at hfits
    obtain ⟨m, hbrace, htiled, hclose, -⟩ := hfits
    obtain ⟨i', j', hbefore, ⟨hover, hfits⟩, hafter⟩ := htiled.split
    rw [decide_eq_true_eq] at hget
    refine .accessor hbody hget.1 hget.2 (fun b hb => ?_) hbrace hbefore hover hfits hafter hclose
    intro hboth
    have hnot := hfirst b hb
    rw [decide_eq_true hboth] at hnot
    cases hnot

/-- The property that a source begins with, as the first member of a type. -/
def SourceFile.leadingProperty? (file : SourceFile) : Option PropertyDecl :=
  match file.members with
  | .type decl :: _ =>
      match decl.members with
      | .property p :: _ => some p
      | _ => none
  | _ => none

theorem SourceFile.holds_leadingProperty {file : SourceFile} {p : PropertyDecl}
    (h : file.leadingProperty? = some p) : file.Holds (.member (.property p)) := by
  unfold leadingProperty? at h
  split at h
  · rename_i decl rest hfile
    split at h
    · rename_i q more hdecl
      cases h
      refine ⟨_, List.mem_cons_of_mem _ (List.mem_cons_of_mem _ List.mem_cons_self), .type decl, ?_,
        .inside (List.mem_cons_of_mem _ List.mem_cons_self) ?_ .self⟩
      · rw [hfile]
        exact List.mem_cons_self
      · rw [hdecl]
        exact List.mem_cons_self
    · cases h
  · cases h

/-- The getter of the property that a source begins with. -/
def SourceFile.leadingGetter? (source : SourceId) (text : String) : Option (GetterForm × Span) := do
  let p ← (← (SourceFile.parse source text).toOption).leadingProperty?
  p.getter?

theorem SourceFile.exists_of_leadingGetter {source : SourceId} {text : String} {getter : GetterForm × Span}
    (h : leadingGetter? source text = some getter) :
      ∃ file property, SourceFile.parse source text = .ok file ∧
      file.Holds (.member (.property property)) ∧ property.getter? = some getter := by
  unfold leadingGetter? at h
  obtain ⟨file, hfile, h⟩ := Option.bind_eq_some_iff.1 h
  obtain ⟨property, hproperty, hgetter⟩ := Option.bind_eq_some_iff.1 h
  exact ⟨file, property, eq_ok_of_toOption hfile, holds_leadingProperty hproperty, hgetter⟩

/-- The places of a source without errors are exact, and so are the texts of its getters. -/
theorem SourceFile.spans_exact {source : SourceId} {text : String} {file : SourceFile}
    (short : text.utf8ByteSize < UInt32.size - 1) (h : SourceFile.parse source text = .ok file) :
    (∀ list ∈ file.lists, Part.InOrder list) ∧
    (∀ p, file.Holds p → p.Sound text ∧ p.span.stop < UInt32.size) ∧
    ∀ property, file.Holds (.member (.property property)) → ∀ form span,
      property.getter? = some (form, span) →
      property.GetterAt (TokenStream.ofText text).tokens form span ∧
      ∃ before copied, span.Covers text.toList before copied ∧
        span.slice? text = some (String.ofList copied) ∧
        ∀ t : SourceTree, t.isSource → t.text = text →
          t.getter? property = some ⟨form, String.ofList copied, span⟩ := by
  have hbytes : Text.byteLength text.toList = text.utf8ByteSize := by
    rw [Text.byteLength_eq_utf8ByteSize, String.ofList_toList]
  refine ⟨fun list hlist => ?_, fun p hp => ?_, fun property hproperty form span hgetter => ?_⟩
  · obtain ⟨n, hrows⟩ := SourceFile.row_of_parse h
    exact (hrows list hlist).inOrder (TokenStream.inOrder text)
  · obtain ⟨i, j, hat⟩ := SourceFile.at_of_parse h hp
    obtain ⟨before, covered, hcovers⟩ := hat.place.covers
    have hle := hcovers.stop_le
    exact ⟨hat.sound, by omega⟩
  · obtain ⟨i, j, hat⟩ := SourceFile.at_of_parse h hproperty
    have hgetterAt := PropertyDecl.getterAt hat hgetter
    have hover : ∃ a b, span.Over (TokenStream.ofText text).tokens a b := by
      cases hgetterAt with
      | arrow _ _ place _ => exact ⟨_, _, place⟩
      | accessor _ _ _ _ _ _ place _ _ _ => exact ⟨_, _, place⟩
    obtain ⟨a, b, hover⟩ := hover
    obtain ⟨before, copied, hcovers⟩ := hover.covers
    refine ⟨hgetterAt, before, copied, hcovers, hcovers.slice?, fun t hsource htext => ?_⟩
    subst htext
    rw [SourceTree.getter?, if_pos hsource, hgetter]
    change (span.slice? t.text).bind _ = _
    rw [hcovers.slice?]
    rfl

/-- A property whose getter has an attribute, a modifier and a body. -/
def SourceFile.protectedGetter : String :=
  "class C\x7bint P\x7b[A] protected get\x7breturn(1);\x7d set;\x7d\x7d"

/-- The text of the getter starts with its attribute list and ends with the brace that closes its body. -/
theorem SourceFile.spans_exact_protectedGetter :
    protectedGetter.utf8ByteSize < UInt32.size - 1 ∧ ∃ file property,
      SourceFile.parse ⟨0⟩ protectedGetter = .ok file ∧ file.Holds (.member (.property property)) ∧
      property.getter? = some (.accessor, ⟨14, 1, 15, 29⟩) ∧
      property.GetterAt (TokenStream.ofText protectedGetter).tokens .accessor ⟨14, 1, 15, 29⟩ ∧
      (⟨14, 1, 15, 29⟩ : Span).slice? protectedGetter = some "[A] protected get\x7breturn(1);\x7d" := by
  have short : protectedGetter.utf8ByteSize < UInt32.size - 1 := by decide +kernel
  have hgetter : leadingGetter? ⟨0⟩ protectedGetter = some (.accessor, ⟨14, 1, 15, 29⟩) := by decide +kernel
  obtain ⟨file, property, hfile, hholds, hproperty⟩ := exists_of_leadingGetter hgetter
  refine ⟨short, file, property, hfile, hholds, hproperty, ?_, by decide +kernel⟩
  exact ((spans_exact short hfile).2.2 property hholds .accessor _ hproperty).1

/-- A parenthesis ends the body of a getter if it closes the last bracket that is open. -/
theorem SourceFile.getter_closed_by_parenthesis :
    ¬∀ (source : SourceId) (text : String) (file : SourceFile), text.utf8ByteSize < UInt32.size - 1 →
      SourceFile.parse source text = .ok file → ∀ property, file.Holds (.member (.property property)) →
        ∀ span, property.getter? = some (.accessor, span) → ∃ copied last,
          span.slice? text = some (String.ofList (copied ++ [last])) ∧ (last = '\x7d' ∨ last = ';') := by
  intro h
  have hgetter : leadingGetter? ⟨0⟩ "class C\x7bint P\x7bget\x7b)\x7d\x7d" =
      some (.accessor, ⟨14, 1, 15, 5⟩) := by
    decide +kernel
  have hslice : (⟨14, 1, 15, 5⟩ : Span).slice? "class C\x7bint P\x7bget\x7b)\x7d\x7d" = some "get\x7b)" := by
    decide +kernel
  obtain ⟨file, property, hfile, hholds, hproperty⟩ := exists_of_leadingGetter hgetter
  obtain ⟨copied, last, hcopied, hlast⟩ := h _ _ file (by decide +kernel) hfile property hholds _ hproperty
  rw [hslice] at hcopied
  have hlist := congrArg (Option.map fun s : String => s.toList.getLast?) hcopied
  simp only [Option.map_some, String.toList_ofList, List.getLast?_concat] at hlist
  have hparen : "get\x7b)".toList.getLast? = some ')' := by decide +kernel
  rw [hparen] at hlist
  obtain rfl := Option.some.inj (Option.some.inj hlist)
  exact absurd hlast (by decide)

end Graft
