/-
Module: Graft.Proofs.Parser.Getters
Purpose: The text of a getter is copied from tokens whose brackets balance.
Main exports: SyntaxNode.Properties, Token.Whole, PropertyDecl.Copied, Parser.Reads.property_getters,
  SourceFile.copied_of_parse, SourceFile.members_of_enumKind

The brackets of an accessor balance because all that it consists of is read: its attributes, its modifiers,
its keyword and its body.
-/
import Graft.Proofs.Parser.TypeDecls

namespace Graft

open Token (KindAt)

/-- The properties of the types among nodes satisfy `P`. -/
def SyntaxNode.Properties (P : PropertyDecl → Prop) (nodes : List SyntaxNode) : Prop :=
  ∀ decl ∈ nodes.filterMap type?, ∀ p, .property p ∈ decl.members → P p

variable {all : List Token} {i j : Nat}

/-! ### Getters -/

/-- The tokens from number `i` to the one before number `j` can stand alone: their brackets balance, and they
end with a bracket or a semicolon, or before a semicolon. -/
structure Token.Whole (all : List Token) (i j : Nat) : Prop where
  balanced : Skip.Balanced (between all i j)
  ends : Edge all j ∨ KindAt all j .semicolon

/-- The getter stands where its span says, if there is one, and its tokens can stand alone. -/
def PropertyDecl.Copied (all : List Token) (p : PropertyDecl) : Prop :=
  ∀ form span, p.getter? = some (form, span) → ∃ i j, span.Over all i j ∧ Token.Whole all i j

/-- An arrow with its expression can stand alone. -/
theorem Part.FitsArrow.whole (h : FitsArrow all i j) (hlt : i < j) : Token.Whole all i j := by
  obtain ⟨⟨arrow, hat, harrow⟩, hsemicolon, huntil⟩ := h
  refine ⟨?_, .inr hsemicolon⟩
  rw [← Token.between_append (Nat.le_succ i) hlt, Token.between_single hat]
  exact .append (.plain (by rw [harrow]; rfl) (by rw [harrow]; rfl)) (Skip.balanced_untilLength huntil)

/-- Behind an accessor declarations may go on. -/
theorem Part.FitsAccessor.edge {a : AccessorDecl} (h : FitsAccessor all i j a) : Token.Edge all j := by
  obtain ⟨-, k, keyword, -, -, -, -, hbody⟩ := h
  cases hmissing : a.body with
  | missing =>
      rw [hmissing] at hbody
      obtain ⟨rfl, hsemicolon⟩ := hbody
      exact .of_kindAt hsemicolon (.inr (.inl rfl))
  | block span =>
      rw [hmissing] at hbody
      exact .of_group ⟨_, hbody.2.brace, rfl⟩ hbody.1.lt hbody.2.group
  | arrow span =>
      rw [hmissing] at hbody
      exact .of_kindAt hbody.2.2.1 (.inr (.inl rfl))

namespace Parser.Reads

/-- What holds of each arrow and of each getter between braces holds of the getter of a property. -/
theorem property_getters {P : GetterForm → Span → Prop} (head : MemberHead) (type : TypeSyntax)
    (name : NamedType) (arrow : Token.KindAt all i .arrow →
      Reads all i (fun _ span => P .arrow span) Parser.arrowBody)
    (accessor : ∀ j, Reads all j (fun _ a => a.kind = .get → a.body ≠ .missing → P .accessor a.span)
      Parser.accessor) :
    Reads all i (fun _ m => m.Filled fun p => ∀ form span, p.getter? = some (form, span) → P form span)
      (Parser.property head type name) := by
  have haccessors : ∀ j, Reads all j (fun _ list => ∀ a ∈ list, a.kind = AccessorKind.get →
      a.body ≠ .missing → P .accessor a.span) Parser.accessors := fun j => by
    refine (expect (by decide)).after fun j _ => (many (Q := fun _ _ (a? : Option AccessorDecl) => ∀ a ∈ a?,
      a.kind = .get → a.body ≠ .missing → P .accessor a.span) (fun k => ?_) j).mono fun _ list _ _ h a ha =>
      ?_
    · refine .eat (by decide) (fun _ => .ite (fun _ => .pure nofun) (absurd rfl)) (.ite nofun fun _ => ?_)
      refine (accessor k).map fun _ a _ _ h a' ha => ?_
      cases ha
      exact h
    · obtain ⟨_, _, -, -, hsome⟩ := h.exists_of_mem ha
      exact hsome a rfl
  refine .check (by decide) fun _ harrow => ?_
  extract_lets rest
  have hrest : ∀ j body value?, Reads all j (fun _ m =>
      (∀ p : PropertyDecl, p.body = body → ∀ form span, p.getter? = some (form, span) → P form span) →
        m.Filled fun p => ∀ form span, p.getter? = some (form, span) → P form span) (rest (body, value?)) :=
    fun j body value? => stand fun span => .pure fun h => .ofProperty (h _ rfl)
  have hlist : ∀ j list value?, Reads all j (fun _ m =>
      (∀ a ∈ list, a.kind = .get → a.body ≠ .missing → P .accessor a.span) →
      m.Filled fun p => ∀ form span, p.getter? = some (form, span) → P form span)
        (rest (.accessors list, value?)) := by
    refine fun j list value? => (hrest j _ value?).mono fun _ _ _ _ h hall =>
      h fun p hp form span hgetter => ?_
    rw [PropertyDecl.getter?, hp] at hgetter
    obtain ⟨a, ha, heq⟩ := Option.map_eq_some_iff.1 hgetter
    cases heq
    have hfound := List.find?_some ha
    rw [decide_eq_true_eq] at hfound
    exact hall a (List.mem_of_find?_eq_some ha) hfound.1 hfound.2
  refine .ite (fun h => (arrow (harrow h)).bind fun j span _ _ => ?_) fun _ =>
    (haccessors i).bind fun j list _ _ => .eat (by decide) (fun _ => .ite (fun _ => ?_) (absurd rfl))
      (.ite nofun fun _ => hlist j list none)
  · refine (hrest j _ none).mono fun _ _ _ _ h hP => h fun p hp form span hgetter => ?_
    rw [PropertyDecl.getter?, hp] at hgetter
    cases hgetter
    exact hP
  · exact (Even.expr (by decide) _).after fun _ value => (expect (by decide)).after fun k _ =>
      hlist k list (some value)

variable (ordered : Token.InOrder all)
include ordered

theorem accessor_whole :
    Reads all i (fun j a => a.span.Over all i j ∧ Token.Whole all i j) Parser.accessor :=
  ((accessor ordered).both (Even.accessor i)).mono fun _ _ _ _ ⟨hat, hbalanced⟩ =>
    ⟨hat.place, hbalanced, .inl (Part.FitsAccessor.edge hat.fits)⟩

theorem property_copied (head : MemberHead) (type : TypeSyntax) (name : NamedType) :
    Reads all i (fun _ m => m.Filled (PropertyDecl.Copied all)) (Parser.property head type name) := by
  refine property_getters (P := fun _ span => ∃ i j, span.Over all i j ∧ Token.Whole all i j) head type name
    (fun harrow => ?_) fun j => ?_
  · refine (arrowBody ordered harrow).mono fun j span _ _ hat => ?_
    exact ⟨i, j - 1, hat.arrow.place, Part.FitsArrow.whole hat.arrow.fits hat.lt⟩
  · exact (accessor_whole ordered).mono fun k _ _ _ hwhole _ _ => ⟨j, k, hwhole⟩

end Parser.Reads

/-- The getters of a source without errors are copied from tokens whose brackets balance, and its
enumerations have no members. -/
theorem SourceFile.filled_of_parse {source : SourceId} {text : String} {file : SourceFile}
    (h : SourceFile.parse source text = .ok file) :
    SyntaxNode.Types (TypeDecl.Filled (PropertyDecl.Copied (TokenStream.ofText text).tokens))
      file.nodes := by
  obtain ⟨t, hrun, herrors⟩ := exists_of_parse h
  have hproperty := fun (i : Nat) => Parser.Reads.property_copied (i := i) (TokenStream.inOrder text)
  obtain ⟨_, -, -, hfilled⟩ := (Parser.Reads.sourceFile_filled hproperty _ (.ofText source text)).of_ok hrun
  exact (hfilled herrors).2

theorem SourceFile.copied_of_parse {source : SourceId} {text : String} {file : SourceFile}
    (h : SourceFile.parse source text = .ok file) :
    SyntaxNode.Properties (PropertyDecl.Copied (TokenStream.ofText text).tokens) file.nodes :=
  fun d hd => (filled_of_parse h d hd).properties

/-- The declarations of enumerations have no members. -/
theorem SourceFile.members_of_enumKind {source : SourceId} {text : String} {file : SourceFile}
    (h : parse source text = .ok file) {d : TypeDecl} (hd : d ∈ file.typeDecls)
    (hkind : d.kind = .enumKind) :
    d.members = [] := (filled_of_parse h d hd).empty hkind

end Graft
