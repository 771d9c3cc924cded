/-
Module: Graft.Proofs.Syntax.Parts
Purpose: The parts of a source with a place of their own, and how they stand among the tokens.
Main exports: Part, Part.lists, Part.Holds, Part.Listed, Part.Fits, Part.At, Part.Row

All kinds of nodes are parts alike: each has a span, and lists of parts below it.  Where a part stands
is given by the numbers of its tokens.  `Part.Fits` says for each kind what these tokens are, as far as
the place of the part depends on it; `Part.At` says it of a part and all parts below it.
-/
import Graft.Proofs.Parser.Searches

namespace Graft

/-- A node of a source with a place of its own. -/
inductive Part where
  | directive (decl : UsingDirective)
  | space (decl : NamespaceDecl)
  | attributeList (list : AttributeList)
  | attributeItem (a : AttributeSyntax)
  | argument (a : ArgumentSyntax)
  | type (decl : TypeDecl)
  | member (decl : MemberDecl)
  | declarator (decl : VariableDecl)
  | accessor (decl : AccessorDecl)
  /-- The body of an accessor between braces. -/
  | block (span : Span)
  /-- An arrow and the expression behind it. -/
  | arrow (span : Span)
  | typeSyntax (t : TypeSyntax)
  | name (n : NamedType)
  | expr (e : Expr)

namespace Part

/-- Where a part is written. -/
def span : Part → Span
  | directive decl => decl.span
  | space decl => decl.span
  | attributeList list => list.span
  | attributeItem a => a.span
  | argument a => a.span
  | type decl => decl.span
  | member decl => decl.span
  | declarator decl => decl.span
  | accessor decl => decl.span
  | block span | arrow span => span
  | typeSyntax t => t.span
  | name n => n.span
  | expr e => e.span

/-- A member of a namespace as a part. -/
def ofNamespaceMember : NamespaceMember → Part
  | .space decl => space decl
  | .type decl => type decl

/-- The body of an accessor as a part, unless it is missing. -/
def ofAccessorBody : AccessorBody → List Part
  | .missing => []
  | .block span => [block span]
  | .arrow span => [arrow span]

/-- What the body of a property holds. -/
def ofPropertyBody : PropertyBody → List Part
  | .arrow span => [arrow span]
  | .accessors list => list.map accessor

/-- The lists of parts right below a part. -/
def lists : Part → List (List Part)
  | directive decl => [[typeSyntax decl.target]]
  | space decl => [decl.usings.map directive, decl.members.map ofNamespaceMember]
  | attributeList list => [list.attributes.map attributeItem]
  | attributeItem a => [[name a.name], a.arguments.map argument]
  | argument a => [[expr a.value]]
  | type decl => [decl.attributes.map attributeList, decl.members.map member]
  | member (.field decl) =>
      [decl.attributes.map attributeList, [typeSyntax decl.type], decl.declarators.map declarator]
  | member (.property decl) =>
      [decl.attributes.map attributeList, [typeSyntax decl.type], ofPropertyBody decl.body,
        decl.initializer?.toList.map expr]
  | member (.method decl) => [decl.attributes.map attributeList, [typeSyntax decl.returnType]]
  | member (.event decl) => [decl.attributes.map attributeList, [typeSyntax decl.type]]
  | member (.type decl) => [[type decl]]
  | member (.other _) => []
  | declarator decl => [decl.initializer?.toList.map expr]
  | accessor decl => [ofAccessorBody decl.body]
  | block _ | arrow _ => []
  | typeSyntax (.predefined ..) => []
  | typeSyntax (.named n) => [[name n]]
  | typeSyntax (.array element _ _) => [[typeSyntax element]]
  | typeSyntax (.nullable inner _) | typeSyntax (.pointer inner _) => [[typeSyntax inner]]
  | typeSyntax (.tuple elements _) => [elements.map fun e => typeSyntax e.type]
  | name n => n.segments.map fun segment => segment.args.map typeSyntax
  | expr (.literal ..) | expr (.unsupported _) => []
  | expr (.name n) | expr (.nameOf n _) => [[name n]]
  | expr (.add lhs rhs _) => [[expr lhs, expr rhs]]
  | expr (.negate operand _) => [[expr operand]]
  | expr (.paren inner _) => [[expr inner]]

/-- Parts in the order of the text, without overlap. -/
def InOrder (list : List Part) : Prop :=
  list.Pairwise fun p q => p.span.offset < q.span.offset ∧ p.span.stop ≤ q.span.offset

/-- A part is another one, or somewhere below it. -/
inductive Holds : Part → Part → Prop where
  | self {p : Part} : Holds p p
  | inside {p q r : Part} {list : List Part} (hlist : list ∈ p.lists) (hq : q ∈ list) (later : Holds q r) :
      Holds p r

end Part

namespace SourceFile

/-- The lists of parts right below a source. -/
def lists (file : SourceFile) : List (List Part) :=
  [file.usings.map .directive, file.attributes.map .attributeList, file.members.map .ofNamespaceMember]

/-- A part is somewhere below a source. -/
def Holds (file : SourceFile) (part : Part) : Prop := ∃ list ∈ file.lists, ∃ p ∈ list, p.Holds part

end SourceFile

/-! ### Tokens -/

open Token (GroupAt KindAt UpTo)

variable {all : List Token} {i j a b : Nat}

/-- The start of a source, or the place behind a token between declarations: an opening brace, the `;`
or closing bracket that ends what stands before. -/
def Token.Edge (all : List Token) (i : Nat) : Prop :=
  i = 0 ∨ ∃ t, all[i - 1]? = some t ∧
    (t.kind = .leftBrace ∨ t.kind = .semicolon ∨ t.kind.isCloser = true)

theorem Token.Edge.of_kindAt {kind : TokenKind} (h : KindAt all (i - 1) kind)
    (hkind : kind = .leftBrace ∨ kind = .semicolon ∨ kind.isCloser = true) : Edge all i := by
  obtain ⟨t, ht, rfl⟩ := h
  exact .inr ⟨t, ht, hkind⟩

namespace Part

variable {α : Type}

/-- Items between two numbers of tokens with a token of one class between each two.  One more may stand
behind the last item. -/
inductive Listed (all : List Token) (separator : TokenKind) (P : Nat → Nat → α → Prop) :
    Nat → Nat → List α → Prop where
  | nil {i : Nat} : Listed all separator P i i []
  | single {i j : Nat} {a : α} (item : P i j a) : Listed all separator P i j [a]
  | cons {i k j : Nat} {a : α} {rest : List α} (first : P i k a) (between : KindAt all k separator)
      (later : Listed all separator P (k + 1) j rest) : Listed all separator P i j (a :: rest)

/-- Items that follow one another without a gap from the token number `i` to the one before number `j`. -/
inductive Tiled (P : Nat → Nat → α → Prop) : Nat → Nat → List α → Prop where
  | nil {i : Nat} : Tiled P i i []
  | cons {i k j : Nat} {a : α} {rest : List α} (first : P i k a) (later : Tiled P k j rest) :
      Tiled P i j (a :: rest)

/-! ### Types and expressions -/

/-- The tokens of a segment of a name: its name, and possibly type arguments, or commas in their place,
between angle brackets. -/
def FitsSegment (all : List Token) (i j : Nat) (segment : TypeSegment) : Prop :=
  KindAt all i .identifier ∧ Span.Over all i (i + 1) segment.name.span ∧
    (j = i + 1 ∧ segment.args = [] ∨
      i + 2 < j ∧ KindAt all (i + 1) .less ∧ KindAt all (j - 1) .greater ∧
        (segment.args = [] ∧ (∀ k, i + 2 ≤ k → k < j - 1 → KindAt all k .comma) ∨
          Listed all .comma (fun a b (t : TypeSyntax) => Span.Over all a b t.span) (i + 2)
          (j - 1) segment.args))

/-- The tokens of a word that stands before something else with a separator behind it, if there is one. -/
def FitsLabel (all : List Token) (separator : TokenKind) (i j : Nat) : Option Ident → Prop
  | none => j = i
  | some label => Span.Over all i (i + 1) label.span ∧ KindAt all (i + 1) separator ∧ j = i + 2

/-- The tokens of a dotted name: segments with points between them, possibly behind an alias. -/
def FitsName (all : List Token) (i j : Nat) (n : NamedType) : Prop :=
  KindAt all i .identifier ∧ (KindAt all (j - 1) .identifier ∨ KindAt all (j - 1) .greater) ∧
    ∃ k, FitsLabel all .doubleColon i k n.alias? ∧ Listed all .dot (FitsSegment all) k j n.segments

/-- The tokens of the name of an element of a tuple, if it has one. -/
def FitsElementName (all : List Token) (i j : Nat) : Option Ident → Prop
  | none => j = i
  | some label => Span.Over all i j label.span ∧ j = i + 1

/-- The tokens of an element of a tuple: a type, and possibly a name. -/
def FitsElement (all : List Token) (i j : Nat) (e : TupleElement TypeSyntax Ident) : Prop :=
  ∃ k, Span.Over all i k e.type.span ∧ FitsElementName all k j e.name?

/-- The tokens of a type. -/
def FitsType (all : List Token) (i j : Nat) : TypeSyntax → Prop
  | .predefined .. => j = i + 1 ∧ KindAt all i .predefinedType
  | .named n => Span.Over all i j n.span
  | .array element rank _ => ∃ k, Span.Over all i k element.span ∧ KindAt all k .leftBracket ∧
      j = k + rank + 1 ∧ KindAt all (j - 1) .rightBracket
  | .nullable inner _ => Span.Over all i (j - 1) inner.span ∧ KindAt all (j - 1) .question
  | .pointer inner _ => Span.Over all i (j - 1) inner.span ∧ KindAt all (j - 1) .star
  | .tuple elements _ => KindAt all i .leftParen ∧ KindAt all (j - 1) .rightParen ∧
      Listed all .comma (FitsElement all) (i + 1) (j - 1) elements

/-- The tokens of an expression.  One that cannot be constant holds whatever stands before a terminator
or the end of the group that it is in. -/
def FitsExpr (all : List Token) (i j : Nat) : Expr → Prop
  | .literal .. => j = i + 1
  | .name n => Span.Over all i j n.span
  | .nameOf n _ => KindAt all i .identifier ∧ KindAt all (i + 1) .leftParen ∧
      Span.Over all (i + 2) (j - 1) n.span ∧ KindAt all (j - 1) .rightParen
  | .add lhs rhs _ => ∃ k, Span.Over all i k lhs.span ∧ KindAt all k .plus ∧ Span.Over all (k + 1) j rhs.span
  | .negate operand _ => KindAt all i .minus ∧ Span.Over all (i + 1) j operand.span
  | .paren inner _ => KindAt all i .leftParen ∧ Span.Over all (i + 1) (j - 1) inner.span ∧
      KindAt all (j - 1) .rightParen
  | .unsupported _ => ∃ terminators, Skip.untilLength terminators 0 (all.drop i) = .closed (j - i)

/-- The tokens of an expression that ends where a search for the terminators does. -/
def FitsValue (all : List Token) (terminators : List TokenKind) (i j : Nat) (value : Expr) : Prop :=
  Span.Over all i j value.span ∧ UpTo all terminators i j

/-! ### Attributes and modifiers -/

/-- The tokens that say what an argument is for: none, or a name and `:` or `=`. -/
def FitsRole (all : List Token) (i j : Nat) : ArgumentRole → Prop
  | .positional => j = i
  | .parameter label => KindAt all i .identifier ∧ FitsLabel all .colon i j (some label)
  | .property label => KindAt all i .identifier ∧ FitsLabel all .equal i j (some label)

/-- The tokens of an argument: an expression, possibly behind what says what it is for.  It stands
between parentheses and commas. -/
def FitsArgument (all : List Token) (i j : Nat) (a : ArgumentSyntax) : Prop :=
  (∃ k, FitsRole all i k a.role ∧ FitsValue all [.comma, .rightParen] k j a.value) ∧
  0 < i ∧ (KindAt all (i - 1) .leftParen ∨ KindAt all (i - 1) .comma) ∧
  (KindAt all j .comma ∨ KindAt all j .rightParen)

/-- The tokens of an attribute: a name, and possibly arguments in parentheses.  A comma or the closing
bracket comes next. -/
def FitsAttribute (all : List Token) (i j : Nat) (a : AttributeSyntax) : Prop :=
  (∃ k, Span.Over all i k a.name.span ∧
    (k = j ∧ a.arguments = [] ∨ KindAt all k .leftParen ∧ KindAt all (j - 1) .rightParen ∧
      Listed all .comma (fun a b (x : ArgumentSyntax) => Span.Over all a b x.span) (k + 1)
      (j - 1) a.arguments)) ∧
  (KindAt all j .comma ∨ KindAt all j .rightBracket)

/-- The tokens of an attribute list: a group of square brackets, and in it attributes, possibly behind
what they are said to be about. -/
def FitsAttributeList (all : List Token) (i j : Nat) (list : AttributeList) : Prop :=
  GroupAt all i j .leftBracket ∧ KindAt all (j - 1) .rightBracket ∧
    ∃ k, FitsLabel all .colon (i + 1) k list.target? ∧
      Listed all .comma (fun a b (x : AttributeSyntax) => Span.Over all a b x.span) k (j - 1) list.attributes

/-- A modifier: a keyword, or a word that is one only before a declaration. -/
def ModifierAt (all : List Token) (i : Nat) : Prop :=
  KindAt all i .modifier ∨
    ∃ t, all[i]? = some t ∧ t.kind = .identifier ∧ t.lexeme ∈ Parser.contextualModifiers

theorem ModifierAt.kindAt (h : ModifierAt all i) : KindAt all i .modifier ∨ KindAt all i .identifier :=
  h.imp_right fun ⟨t, ht, hkind, _⟩ => ⟨t, ht, hkind⟩

theorem ModifierAt.lt (h : ModifierAt all i) : i < all.length := h.kindAt.elim KindAt.lt KindAt.lt

/-- The tokens before the type or keyword of a declaration: attribute lists, and then modifiers. -/
def FitsHead (all : List Token) (i j : Nat) (lists : List AttributeList) : Prop :=
  ∃ k, Tiled (fun a b (list : AttributeList) =>
      Span.Over all a b list.span ∧ GroupAt all a b .leftBracket) i k lists ∧
    k ≤ j ∧ ∀ n, k ≤ n → n < j → ModifierAt all n

/-! ### Bodies -/

/-- The tokens of a body between braces: a group, in which brackets of all three kinds are counted
together. -/
structure FitsBlock (all : List Token) (i j : Nat) : Prop where
  brace : KindAt all i .leftBrace
  group : Skip.groupLength? 0 (all.drop i) = some (j - i)
  /-- If what follows is properly nested up to a closing brace, the group ends with that one. -/
  nested : ∀ inner closing rest, all.drop (i + 1) = inner ++ closing :: rest → Nested inner →
    closing.kind = .rightBrace → j = i + inner.length + 2

/-- The tokens of an arrow and its expression, which the first `;` outside all brackets ends. -/
def FitsArrow (all : List Token) (i j : Nat) : Prop :=
  KindAt all i .arrow ∧ KindAt all j .semicolon ∧
    Skip.untilLength [.semicolon] 0 (all.drop (i + 1)) = .closed (j - (i + 1))

/-- The tokens of a body that is passed: `;`, a group of braces, or an arrow with its expression and `;`. -/
inductive FitsBody (all : List Token) : Nat → Nat → Prop where
  | semicolon {i : Nat} (h : KindAt all i .semicolon) : FitsBody all i (i + 1)
  | group {i j : Nat} (h : FitsBlock all i j) : FitsBody all i j
  | arrow {i j : Nat} (h : FitsArrow all i j) : FitsBody all i (j + 1)

/-- The tokens of the body of a type or a namespace: a group of braces that the brace at number `k` ends,
and the `;` that may follow it. -/
structure FitsBraces (all : List Token) (i k j : Nat) : Prop where
  block : FitsBlock all i (k + 1)
  brace : KindAt all k .rightBrace
  tail : KindAt all (k + 1) .semicolon ∧ j = k + 2 ∨ ¬KindAt all (k + 1) .semicolon ∧ j = k + 1

/-! ### Members -/

/-- The tokens of an accessor.  It starts with the first of its attributes or modifiers or else with its
keyword, and ends with its body. -/
def FitsAccessor (all : List Token) (i j : Nat) (a : AccessorDecl) : Prop :=
  (KindAt all i .leftBracket ∨ KindAt all i .modifier ∨ KindAt all i .identifier) ∧
  ∃ k keyword, i ≤ k ∧ (∃ lists, FitsHead all i k lists) ∧ all[k]? = some keyword ∧
    AccessorKind.ofKeyword? keyword.name = some a.kind ∧
    match a.body with
    | .missing => j = k + 2 ∧ KindAt all (k + 1) .semicolon
    | .block span => Span.Over all (k + 1) j span ∧ FitsBlock all (k + 1) j
    | .arrow span => Span.Over all (k + 1) (j - 1) span ∧ FitsArrow all (k + 1) (j - 1)

/-- The accessor stands between two numbers of tokens. -/
def AccessorOver (all : List Token) (i j : Nat) (a : AccessorDecl) : Prop :=
  Span.Over all i j a.span ∧ FitsAccessor all i j a

/-- The tokens of the value behind the accessors of a property: `=`, the value and `;`, if it has one. -/
def FitsPropertyValue (all : List Token) (i j : Nat) : Option Expr → Prop
  | none => j = i ∧ ¬KindAt all i .equal
  | some value =>
      KindAt all i .equal ∧ FitsValue all [.semicolon] (i + 1) (j - 1) value ∧ KindAt all (j - 1) .semicolon

/-- The tokens of a property's body with the value behind it: an arrow before the last `;`, or accessors
without a gap between braces. -/
def FitsPropertyBody (all : List Token) (i j : Nat) (value? : Option Expr) : PropertyBody → Prop
  | .arrow span => value? = none ∧ Span.Over all i (j - 1) span ∧ FitsArrow all i (j - 1)
  | .accessors list => ∃ k, KindAt all i .leftBrace ∧ Tiled (AccessorOver all) (i + 1) k list ∧
      KindAt all k .rightBrace ∧ FitsPropertyValue all (k + 1) j value?

/-- The tokens of the name of a member. -/
def FitsMemberName (all : List Token) (i j : Nat) (name : Ident) : Prop :=
  ∃ n : NamedType, Span.Over all i j n.span ∧ FitsName all i j n ∧ name = Parser.memberName n

/-- A single identifier is the name of a member. -/
theorem FitsMemberName.single {t : Token} (h : all[i]? = some t) (hkind : t.kind = .identifier) :
    FitsMemberName all i (i + 1) ⟨t.name, t.span⟩ :=
  ⟨⟨none, [⟨⟨t.name, t.span⟩, []⟩], t.span⟩, .single h, ⟨⟨t, h, hkind⟩, .inl ⟨t, h, hkind⟩, i, rfl,
    .single ⟨⟨t, h, hkind⟩, .single h, .inl ⟨rfl, rfl⟩⟩⟩, rfl⟩

/-- The tokens of the initial value of a variable, if it has one. -/
def FitsInitializer (all : List Token) (i j : Nat) : Option Expr → Prop
  | none => j = i
  | some value => KindAt all i .equal ∧ FitsValue all [.comma, .semicolon] (i + 1) j value

/-- The tokens of a variable: a name, and possibly `=` and a value.  A comma or `;` comes next. -/
def FitsVariable (all : List Token) (i j : Nat) (d : VariableDecl) : Prop :=
  KindAt all i .identifier ∧ (KindAt all j .comma ∨ KindAt all j .semicolon) ∧
    ∃ k, FitsMemberName all i k d.name ∧ FitsInitializer all k j d.initializer?

/-- The tokens of what comes behind the name of an event: a group of braces, or all up to `;`. -/
def FitsEventBody (all : List Token) (i j : Nat) : Prop :=
  FitsBlock all i j ∨
    ¬KindAt all i .leftBrace ∧ UpTo all [.semicolon] i (j - 1) ∧ KindAt all (j - 1) .semicolon

/-- The tokens of the members of a type, which follow one another with nothing but `;` between them. -/
inductive FitsMembers (all : List Token) : Nat → Nat → List MemberDecl → Prop where
  | nil {i : Nat} : FitsMembers all i i []
  | semicolon {i j : Nat} {list : List MemberDecl} (h : KindAt all i .semicolon)
      (later : FitsMembers all (i + 1) j list) : FitsMembers all i j list
  | member {i k j : Nat} {d : MemberDecl} {rest : List MemberDecl} (first : Span.Over all i k d.span)
      (later : FitsMembers all k j rest) : FitsMembers all i j (d :: rest)

/-- The tokens of the body of a type: `;`, or members between braces.  Those of an enumeration are not
kept. -/
def FitsTypeBody (all : List Token) (i j : Nat) (d : TypeDecl) : Prop :=
  KindAt all i .semicolon ∧ j = i + 1 ∧ d.members = [] ∨
    ∃ k, FitsBraces all i k j ∧
      if d.kind = .enumKind then d.members = [] else FitsMembers all (i + 1) k d.members

/-- The tokens of a type declaration: attributes and modifiers, one or two words that say what it
declares, its name, all up to the first brace or `;` outside all brackets, and its body. -/
def FitsTypeDecl (all : List Token) (i j : Nat) (d : TypeDecl) : Prop :=
  ∃ m n k, FitsHead all i m d.attributes ∧ (n = m + 1 ∨ n = m + 2) ∧ KindAt all n .identifier ∧
    Span.Over all n (n + 1) d.name.span ∧ UpTo all [.leftBrace, .semicolon] (n + 1) k ∧
    FitsTypeBody all k j d

/-- The tokens of a member.  What is passed up to its body ends with the first brace, arrow or `;`
outside all brackets. -/
def FitsMember (all : List Token) (i j : Nat) : MemberDecl → Prop
  | .field decl => ∃ m n, FitsHead all i m decl.attributes ∧ Span.Over all m n decl.type.span ∧
      Listed all .comma (fun a b (d : VariableDecl) => Span.Over all a b d.span) n (j - 1) decl.declarators ∧
      KindAt all (j - 1) .semicolon
  | .property decl => ∃ m n k, FitsHead all i m decl.attributes ∧ Span.Over all m n decl.type.span ∧
      FitsMemberName all n k decl.name ∧ FitsPropertyBody all k j decl.initializer? decl.body
  | .method decl => ∃ m n k l o, FitsHead all i m decl.attributes ∧ Span.Over all m n decl.returnType.span ∧
      FitsMemberName all n k decl.name ∧ GroupAt all k l .leftParen ∧
      UpTo all [.leftBrace, .semicolon, .arrow] l o ∧ FitsBody all o j
  | .event decl => ∃ m n k, FitsHead all i m decl.attributes ∧ KindAt all m .eventKeyword ∧
      Span.Over all (m + 1) n decl.type.span ∧ (∃ name ∈ decl.names.head?, FitsMemberName all n k name) ∧
      FitsEventBody all k j
  | .type decl => FitsTypeDecl all i j decl
  | .other _ => ∃ m o, (∃ lists, FitsHead all i m lists) ∧ UpTo all [.leftBrace, .semicolon, .arrow] m o ∧
      FitsBody all o j

/-! ### Namespaces -/

/-- The tokens that say what a using directive is for. -/
def FitsUsingKind (all : List Token) (i j : Nat) : UsingKind → Prop
  | .namespaceImport => j = i
  | .staticImport => KindAt all i .modifier ∧ j = i + 1
  | .aliasImport label => FitsLabel all .equal i j (some label)

/-- The tokens of a using directive: `using`, possibly behind `global`, what it is for, its target and
`;`. -/
def FitsDirective (all : List Token) (i j : Nat) (d : UsingDirective) : Prop :=
  ∃ m k, (if d.isGlobal then KindAt all i .identifier ∧ m = i + 1 else m = i) ∧ KindAt all m .usingKeyword ∧
    FitsUsingKind all (m + 1) k d.kind ∧ Span.Over all k (j - 1) d.target.span ∧
    KindAt all (j - 1) .semicolon

/-- The tokens of a namespace declaration: `namespace`, its name, and its body, or `;` and the rest of the
source. -/
def FitsNamespace (all : List Token) (i j : Nat) (d : NamespaceDecl) : Prop :=
  KindAt all i .namespaceKeyword ∧
    ∃ k, Listed all .dot (fun a b (x : Ident) => b = a + 1 ∧ Span.Over all a b x.span) (i + 1) k d.name ∧
      if d.fileScoped then KindAt all k .semicolon ∧ j = all.length else ∃ l, FitsBraces all k l j

/-- What the tokens of a part are, from number `i` to the one before number `j`, as far as its place
depends on it.  A declaration stands between two edges. -/
def Fits (all : List Token) (i j : Nat) : Part → Prop
  | directive decl => Token.Edge all i ∧ Token.Edge all j ∧ FitsDirective all i j decl
  | space decl => Token.Edge all i ∧ Token.Edge all j ∧ FitsNamespace all i j decl
  | attributeList list => FitsAttributeList all i j list
  | attributeItem a => FitsAttribute all i j a
  | argument a => FitsArgument all i j a
  | type decl => Token.Edge all i ∧ Token.Edge all j ∧ FitsTypeDecl all i j decl
  | member decl => Token.Edge all i ∧ Token.Edge all j ∧ FitsMember all i j decl
  | declarator decl => FitsVariable all i j decl
  | accessor decl => FitsAccessor all i j decl
  | block _ => FitsBlock all i j
  | arrow _ => FitsArrow all i j
  | typeSyntax t => FitsType all i j t
  | name n => FitsName all i j n
  | expr e => FitsExpr all i j e

mutual

/-- A part stands where its span says, from the token number `i` to the one before number `j`, its tokens
are those of its kind, and so it is with all parts below it. -/
inductive At (all : List Token) : Nat → Nat → Part → Prop where
  | intro {i j : Nat} {p : Part} (place : Span.Over all i j p.span) (fits : p.Fits all i j)
      (rows : ∀ list ∈ p.lists, Row all i j list) : At all i j p

/-- Parts that follow one another between the token number `i` and number `j`. -/
inductive Row (all : List Token) : Nat → Nat → List Part → Prop where
  | nil {i j : Nat} (le : i ≤ j) : Row all i j []
  | cons {i a b j : Nat} {p : Part} {rest : List Part} (le : i ≤ a) (first : At all a b p)
      (later : Row all b j rest) : Row all i j (p :: rest)

end

/-- The group that an opening brace starts. -/
theorem FitsBlock.of_group (hbrace : KindAt all i .leftBrace) (hlt : i < j)
    (h : Skip.groupLength? 0 (all.drop i) = some (j - i)) : FitsBlock all i j := by
  refine ⟨hbrace, h, fun inner closing rest hrest hnested hclosing => ?_⟩
  obtain ⟨t, ht, hkind⟩ := hbrace
  obtain ⟨hi, rfl⟩ := List.getElem?_eq_some_iff.1 ht
  rw [List.drop_eq_getElem_cons hi, hrest,
    Skip.groupLength?_group (by rw [hkind, hclosing]; rfl) hnested] at h
  have hlength := Option.some.inj h
  omega

namespace At

variable {p : Part}

theorem place (h : At all i j p) : Span.Over all i j p.span := by
  cases h with
  | intro place _ _ => exact place

theorem fits (h : At all i j p) : p.Fits all i j := by
  cases h with
  | intro _ fits _ => exact fits

theorem rows (h : At all i j p) : ∀ list ∈ p.lists, Row all i j list := by
  cases h with
  | intro _ _ rows => exact rows

theorem row (h : At all i j p) : Row all i j [p] := .cons (Nat.le_refl i) h (.nil (Nat.le_refl j))

/-- A part with nothing below it. -/
theorem leaf (lists : p.lists = []) (place : Span.Over all i j p.span) (fits : p.Fits all i j) :
    At all i j p := by
  refine .intro place fits fun list hlist => ?_
  rw [lists] at hlist
  cases hlist

end At

namespace Row

variable {list more : List Part}

theorem le (h : Row all i j list) : i ≤ j := by
  induction list generalizing i with
  | nil =>
      cases h with
      | nil le => exact le
  | cons p rest ih =>
      cases h with
      | cons le first later => exact Nat.le_trans le (Nat.le_trans (Nat.le_of_lt first.place.lt) (ih later))

/-- A row has room at both sides. -/
theorem widen (h : Row all a b list) (hia : i ≤ a) (hbj : b ≤ j) : Row all i j list := by
  induction list generalizing i a with
  | nil => exact .nil (Nat.le_trans hia (Nat.le_trans h.le hbj))
  | cons p rest ih =>
      cases h with
      | cons le first later => exact .cons (Nat.le_trans hia le) first (ih later (Nat.le_refl _))

/-- Each part of a row stands in the row's place. -/
theorem exists_at (h : Row all i j list) {p : Part} (hp : p ∈ list) :
    ∃ a b, i ≤ a ∧ b ≤ j ∧ At all a b p := by
  induction list generalizing i with
  | nil => cases hp
  | cons q rest ih =>
      cases h with
      | @cons _ a b _ _ _ le first later =>
          rcases List.mem_cons.1 hp with rfl | hp
          · exact ⟨a, b, le, later.le, first⟩
          · obtain ⟨c, d, hc, hd, hat⟩ := ih later hp
            have hlt := first.place.lt
            exact ⟨c, d, by omega, hd, hat⟩

/-- The parts of a row are in order. -/
theorem inOrder (ordered : Token.InOrder all) (h : Row all i j list) : InOrder list := by
  induction list generalizing i with
  | nil => exact .nil
  | cons q rest ih =>
      cases h with
      | cons le first later =>
          refine .cons (fun r hr => ?_) (ih later)
          obtain ⟨c, d, hc, -, hat⟩ := later.exists_at hr
          exact first.place.apart ordered hat.place hc

end Row

/-- A part with one other part right below it. -/
theorem At.around {p q : Part} (lists : p.lists = [[q]]) (place : Span.Over all i j p.span)
    (fits : p.Fits all i j) (inner : At all a b q) (hia : i ≤ a) (hbj : b ≤ j) : At all i j p := by
  refine .intro place fits fun list hlist => ?_
  rw [lists] at hlist
  obtain rfl := List.mem_singleton.1 hlist
  exact inner.row.widen hia hbj

/-- What a part holds stands in its place. -/
theorem At.of_holds {p q : Part} (h : At all i j p) (hq : p.Holds q) :
    ∃ a b, i ≤ a ∧ b ≤ j ∧ At all a b q := by
  induction hq generalizing i j with
  | self => exact ⟨i, j, Nat.le_refl i, Nat.le_refl j, h⟩
  | inside hlist hmem _ ih =>
      obtain ⟨a, b, ha, hb, hat⟩ := (h.rows _ hlist).exists_at hmem
      obtain ⟨c, d, hc, hd, hat'⟩ := ih hat
      exact ⟨c, d, Nat.le_trans ha hc, Nat.le_trans hd hb, hat'⟩

end Part

end Graft
