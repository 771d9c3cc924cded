/-
Module: Graft.Proofs.Parser.Placed
Purpose: Types, expressions, attributes and modifiers stand where their spans say.
Main exports: Parser.Reads.type, Parser.Reads.namedType, Parser.Reads.expr, Parser.Reads.memberHead

Each production starts a span at the token that comes next and ends it with the last one read, or merges
the spans of its parts.  Both give the stretch of tokens that it has read.
-/
import Graft.Proofs.Parser.Balance
import Graft.Proofs.Parser.ConstantPhrases

namespace Graft.Parser.Reads

open Token (GroupAt KindAt Clear UpTo)

variable {all : List Token} {i : Nat}

/-! ### Types -/

/-- A further token of a class, if there is one. -/
def NextOf (all : List Token) (kind : TokenKind) (i j : Nat) : Option Token → Prop
  | none => j = i
  | some _ => KindAt all i kind ∧ j = i + 1

theorem Chain.tokens {kind : TokenKind} {j : Nat} {list : List Token}
    (h : Chain (NextOf all kind) i j list) :
    j = i + list.length ∧ ∀ k, i ≤ k → k < j → KindAt all k kind := by
  induction h with
  | done _ last =>
      obtain rfl : _ = _ := last
      exact ⟨rfl, fun k hle hlt => absurd hlt (Nat.not_lt.2 hle)⟩
  | @more i k j a rest _ first _ ih =>
      obtain ⟨hat, rfl⟩ := first
      refine ⟨by rw [List.length_cons, ih.1]; omega, fun k hle hlt => ?_⟩
      rcases Nat.lt_or_eq_of_le hle with hle | rfl
      · exact ih.2 k hle hlt
      · exact hat

theorem commas : Reads all i (fun j n => j = i + n ∧ ∀ k, i ≤ k → k < j → KindAt all k .comma) commas :=
  (many (fun _ => eat? (by decide) (fun t ht hkind => ⟨⟨t, ht, hkind⟩, rfl⟩) rfl) i).bind fun _ _ _ _ =>
    .pure Chain.tokens

/-- The arguments, or commas in their place, stand between the brackets around them. -/
structure ArgsAt (all : List Token) (i j : Nat) (args : List TypeSyntax) : Prop where
  lt : i + 1 < j
  less : KindAt all i .less
  greater : KindAt all (j - 1) .greater
  listed : args = [] ∧ (∀ k, i + 1 ≤ k → k < j - 1 → KindAt all k .comma) ∨
    Part.Listed all .comma (fun a b (t : TypeSyntax) => Span.Over all a b t.span) (i + 1) (j - 1) args
  row : Part.Row all i j (args.map .typeSyntax)

/-- A segment starts with its name and ends with the name or with its arguments. -/
structure SegmentAt (all : List Token) (i j : Nat) (segment : TypeSegment) : Prop where
  fits : Part.FitsSegment all i j segment
  lt : i < j
  stop : KindAt all (j - 1) .identifier ∨ KindAt all (j - 1) .greater
  args : Part.Row all i j (segment.args.map .typeSyntax)

section

variable {type : Parser TypeSyntax}
  (htype : ∀ i, Reads all i (fun j t => Part.At all i j (.typeSyntax t)) type)
include htype

theorem typeArgs : Reads all i (ArgsAt all i) (typeArgs type) := by
  refine (expect (by decide)).bind fun j less hij _ => .check (by decide) fun _ _ =>
    .check (by decide) fun _ _ =>
    .ite (fun _ => ?_) fun _ => ?_
  · refine commas.bind fun k n hjk _ => (expect (by decide)).bind fun l greater _ hl => .pure ?_
    rintro ⟨rfl, hgreater⟩ ⟨-, hcommas⟩ ⟨rfl, hless⟩
    exact ⟨by omega, ⟨less, hless⟩, ⟨greater, hgreater⟩, .inl ⟨rfl, hcommas⟩, .nil (by omega)⟩
  · refine (separated htype j).bind fun k args hjk _ => (expect (by decide)).bind fun l greater _ hl =>
      .pure ?_
    rintro ⟨rfl, hgreater⟩ hargs ⟨rfl, hless⟩
    refine ⟨by omega, ⟨less, hless⟩, ⟨greater, hgreater⟩, .inr (hargs.mono fun _ _ _ hat => hat.place), ?_⟩
    exact (hargs.row fun a b _ h _ _ => ⟨a, b, Nat.le_refl a, Nat.le_refl b, h⟩).widen (by omega) (by omega)

theorem typeSegment (withArgs : Bool) : Reads all i (SegmentAt all i) (typeSegment type withArgs) := by
  refine ident.bind fun j name hij _ => .check (by decide) fun _ _ => .ite (fun _ => ?_) fun _ => ?_
  · refine (typeArgs htype).bind fun k args _ _ => .pure ?_
    rintro hargs ⟨rfl, t, ht, hkind, rfl⟩
    have hlt := hargs.lt
    exact ⟨⟨⟨t, ht, hkind⟩, .single ht, .inr ⟨hlt, hargs.less, hargs.greater, hargs.listed⟩⟩, by omega,
      .inr hargs.greater, hargs.row.widen (by omega) (Nat.le_refl k)⟩
  · refine (pure (Q := fun k args => k = j ∧ args = []) ⟨rfl, rfl⟩).bind fun k args _ _ => .pure ?_
    rintro ⟨rfl, rfl⟩ ⟨rfl, t, ht, hkind, rfl⟩
    exact ⟨⟨⟨t, ht, hkind⟩, .single ht, .inl ⟨rfl, rfl⟩⟩, by omega, .inl ⟨t, ht, hkind⟩, .nil (by omega)⟩

variable (ordered : Token.InOrder all)
include ordered

/-- A further segment behind a point, if there is one. -/
def MoreAt (all : List Token) (i j : Nat) : Option TypeSegment → Prop
  | none => j = i
  | some segment => KindAt all i .dot ∧ SegmentAt all (i + 1) j segment

omit ordered htype in
/-- Segments end with a name or with arguments. -/
theorem Chain.stop {j : Nat} {segments : List TypeSegment} (h : Chain (MoreAt all) i j segments)
    (hstop : KindAt all (i - 1) .identifier ∨ KindAt all (i - 1) .greater) :
    KindAt all (j - 1) .identifier ∨ KindAt all (j - 1) .greater := by
  induction h with
  | done _ last => rwa [show _ = _ from last]
  | more _ first _ ih => exact ih first.2.stop

omit ordered htype in
/-- The name of a member that is more than a single segment reaches to its last one. -/
theorem memberName_span {alias? : Option Ident} {first last : TypeSegment} {more : List TypeSegment}
    {span : Span} (h : ¬(alias? = none ∧ more = [])) (hlast : (first :: more).getLast? = some last) :
    (memberName ⟨alias?, first :: more, span⟩).span = span.merge last.name.span := by
  unfold memberName
  split
  · rename_i hnone hsegments
    cases hsegments
    exact absurd ⟨hnone, rfl⟩ h
  · dsimp only
    rw [hlast]

/-- A dotted name stands between its first and its last token, and the name of a member that it gives
starts where it does. -/
def NameAt (all : List Token) (i j : Nat) (n : NamedType) : Prop :=
  Part.At all i j (.name n) ∧ ∃ k, k ≤ j ∧ Span.Over all i k (memberName n).span

omit htype in
theorem nameAt {m k j : Nat} {qualifier? : Option Ident} {first : TypeSegment} {more : List TypeSegment}
    {span : Span} (hspan : Span.Over all i j span) (hstart : KindAt all i .identifier)
    (hq : Part.FitsLabel all .doubleColon i m qualifier?) (hfirst : SegmentAt all m k first)
    (hmore : Chain (MoreAt all) k j more) : NameAt all i j ⟨qualifier?, first :: more, span⟩ := by
  have him : i ≤ m := by
    cases qualifier? with
    | none => exact Nat.le_of_eq hq.symm
    | some _ => exact hq.2.2 ▸ Nat.le_add_right i 2
  have hsegments : ∀ segment ∈ first :: more, ∃ a b, i ≤ a ∧ b ≤ j ∧ SegmentAt all a b segment := by
    intro segment hsegment
    rcases List.mem_cons.1 hsegment with rfl | hsegment
    · exact ⟨m, k, him, hmore.le, hfirst⟩
    · obtain ⟨b, c, hb, hc, -, hat⟩ := hmore.exists_of_mem hsegment
      have hlt := hfirst.lt
      exact ⟨b + 1, c, by omega, hc, hat⟩
  have hlisted : Part.Listed all .dot (SegmentAt all) m j (first :: more) :=
    .ofChain hfirst hmore (fun _ _ _ h => h) fun _ _ h => .inl h
  refine ⟨.intro hspan ⟨hstart, hmore.stop hfirst.stop, m, hq, hlisted.mono fun _ _ _ h => h.fits⟩
    fun list hlist => ?_, ?_⟩
  · obtain ⟨segment, hsegment, rfl⟩ := List.mem_map.1 hlist
    obtain ⟨a, b, ha, hb, hat⟩ := hsegments segment hsegment
    exact hat.args.widen ha hb
  · have hmerged : ∀ last, (first :: more).getLast? = some last →
        Span.Over all i j (span.merge last.name.span) := by
      intro last hlast
      obtain ⟨a, b, ha, hb, hat⟩ := hsegments last (List.mem_of_getLast? hlast)
      have hlt := hat.lt
      exact hspan.absorb ordered hat.fits.2.1 ha (by omega)
    have hlast : (first :: more).getLast? = some ((first :: more).getLast (List.cons_ne_nil _ _)) :=
      List.getLast?_eq_some_getLast _
    -- a single segment without a qualifier is the name itself
    by_cases hbare : qualifier? = none ∧ more = []
    · obtain ⟨rfl, rfl⟩ := hbare
      obtain rfl : m = i := hq
      exact ⟨m + 1, Nat.succ_le_of_lt hspan.lt, hfirst.fits.2.1⟩
    · refine ⟨j, Nat.le_refl j, ?_⟩
      rw [memberName_span hbare hlast]
      exact hmerged _ hlast

theorem namedTypeOf (withArgs : Bool) : Reads all i (NameAt all i) (namedTypeOf type withArgs) := by
  refine .peek fun t ht => .check (by decide) fun identifier hidentifier => .kindAhead 1 fun kind hkind => ?_
  extract_lets rest
  have hrest : ∀ m qualifier?, i ≤ m →
      Reads all m (fun j n => Part.FitsLabel all .doubleColon i m qualifier? →
      (qualifier? ≠ none → KindAt all i .identifier) → NameAt all i j n) (rest qualifier?) := by
    intro m qualifier? him
    refine (typeSegment htype withArgs).bind fun k first hmk _ => (many (Q := MoreAt all) ?_ k).bind
      fun l more hkl _ => (spanFrom ordered _).bind fun _ span hl _ => .pure ?_
    · intro n
      refine .check (by decide) fun point hpoint => .kindAhead 1 fun _ _ => .ite (fun h => ?_) fun _ =>
        .pure rfl
      rw [Bool.and_eq_true] at h
      have hdot := hpoint h.1
      refine advance.bind fun a _ ha _ => (typeSegment htype withArgs).map fun j segment hj _ hat hnext => ?_
      obtain rfl := hnext.2 hdot.lt
      exact ⟨hdot, hat⟩
    · rintro ⟨rfl, hspan⟩ hmore hfirst hlabel hsome
      have hlt := hfirst.lt
      have hsingle := Span.Over.single (ht.of_lt (by omega))
      refine nameAt ordered (hspan _ _ hsingle (by omega)) ?_ hlabel hfirst hmore
      cases qualifier? with
      | none =>
          obtain rfl : m = i := hlabel
          exact hfirst.fits.1
      | some _ => exact hsome nofun
  refine .ite (fun h => ?_) fun _ => ?_
  · simp only [Bool.and_eq_true, decide_eq_true_eq] at h
    have hcolons : KindAt all (i + 1) .doubleColon := h.2 ▸ hkind (by rw [h.2]; decide)
    refine ident.bind fun j name hij _ => advance.bind fun k _ hjk _ => ?_
    refine (pure (Q := fun l q? => l = k ∧ q? = some name) ⟨rfl, rfl⟩).bind fun l q? hkl _ =>
      (hrest l q? (by omega)).mono fun n named _ _ hn hq hnext hname => ?_
    obtain ⟨rfl, rfl⟩ := hq
    obtain ⟨rfl, t, ht, hidentifier, rfl⟩ := hname
    obtain rfl := hnext.2 hcolons.lt
    exact hn ⟨.single ht, hcolons, rfl⟩ fun _ => ⟨t, ht, hidentifier⟩
  · refine (pure (Q := fun l q? => l = i ∧ q? = none) ⟨rfl, rfl⟩).bind fun l q? hil _ =>
      (hrest l q? hil).mono fun n named _ _ hn hq => ?_
    obtain ⟨rfl, rfl⟩ := hq
    exact hn rfl fun hne => absurd rfl hne

omit ordered in
/-- An element of a tuple starts with its type. -/
theorem tupleElement : Reads all i (fun j (e : TupleElement TypeSyntax Ident) =>
    Part.FitsElement all i j e ∧ ∃ k, k ≤ j ∧ Part.At all i k (.typeSyntax e.type)) (do
      let type ← type
      let name? ← Parser.whenever (Parser.check .identifier) Parser.ident
      return ⟨type, name?⟩) := by
  refine (htype i).bind fun j type _ _ => ?_
  refine (whenever_check (Q := fun k name? => Part.FitsElementName all j k name?) (by decide)
    (fun _ => ?_) rfl).bind fun k name? hjk _ => .pure fun hname hat => ⟨⟨j, hat.place, hname⟩, j, hjk, hat⟩
  refine ident.mono fun k name _ _ hname => ?_
  obtain ⟨rfl, t, ht, -, rfl⟩ := hname
  exact ⟨.single ht, rfl⟩

theorem tupleType : Reads all i (fun j t => Part.At all i j (.typeSyntax t)) (tupleType type) := by
  refine (expect (by decide)).bind fun j open? _ _ =>
    (separated (fun _ => tupleElement htype) j).bind fun k elements hjk _ =>
      (expect (by decide)).bind fun l close _ hl => (spanFrom ordered _).bind fun _ span _ _ => .pure ?_
  rintro ⟨rfl, hspan⟩ ⟨rfl, hclose⟩ helements ⟨rfl, hopen⟩
  refine .intro (hspan _ _ (.single hopen.1) (by omega))
    ⟨⟨_, hopen⟩, ⟨close, hclose⟩, helements.mono fun _ _ _ h => h.1⟩ fun list hlist => ?_
  obtain rfl := List.mem_singleton.1 hlist
  refine (helements.row fun a b e h _ _ => ?_).widen (by omega) (by omega)
  obtain ⟨-, k, hk, hat⟩ := h
  exact ⟨a, k, Nat.le_refl a, hk, hat⟩

/-- What a suffix makes of a type before it, which starts where `start` does. -/
def SuffixAt (all : List Token) (start : Span) (i j : Nat) (suffix? : Option (TypeSyntax → TypeSyntax)) :
    Prop :=
  i ≤ j ∧ (suffix? = none → j = i) ∧ ∀ suffix ∈ suffix?, ∀ a b t, Span.Over all a b start → b ≤ i →
    Part.At all a i (.typeSyntax t) → Part.At all a j (.typeSyntax (suffix t))

omit htype in
/-- A suffix of one token. -/
theorem markSuffix {kind : TokenKind} {start : Span} {wrap : Span → TypeSyntax → TypeSyntax}
    (hat : KindAt all i kind)
      (hwrap : ∀ {a t span}, Span.Over all a (i + 1) span → Part.At all a i (.typeSyntax t) →
      Part.At all a (i + 1) (.typeSyntax (wrap span t))) :
    Reads all i (SuffixAt all start i) (do
      let _ ← Parser.advance
      let span ← Parser.spanFrom start
      return some (wrap span)) := by
  refine advance.bind fun j _ hij _ => (spanFrom ordered start).bind fun k span _ _ => .pure ?_
  rintro ⟨rfl, hspan⟩ ⟨-, hj⟩
  obtain rfl := hj hat.lt
  refine ⟨hij, by simp, fun suffix hsuffix a b t hstart hle hinner => ?_⟩
  cases hsuffix
  exact hwrap (hspan a b hstart (by omega)) hinner

omit htype in
theorem typeSuffix (start : Span) : Reads all i (SuffixAt all start i) (typeSuffix start) := by
  refine .get fun s hs => ?_
  have hnext : ∀ {kind : TokenKind}, kind ≠ .endOfFile → s.check kind = true → KindAt all i kind :=
    fun hkind hcheck => hs.kindAt_of_check hkind hcheck
  refine .ite (fun h => ?_) fun _ => .ite (fun h => ?_) fun _ => .ite (fun h => ?_) fun _ => ?_
  · have hat := hnext (by decide) h
    exact markSuffix ordered hat fun hspan hinner =>
      .around rfl hspan ⟨hinner.place, hat⟩ hinner (Nat.le_refl _) (Nat.le_succ i)
  · have hat := hnext (by decide) h
    exact markSuffix ordered hat fun hspan hinner =>
      .around rfl hspan ⟨hinner.place, hat⟩ hinner (Nat.le_refl _) (Nat.le_succ i)
  · rw [isRankSpecifier, Bool.and_eq_true] at h
    have hat := hnext (by decide) h.1
    refine advance.bind fun j _ hij _ => commas.bind fun k count hjk _ =>
      (expect (by decide)).bind fun l close _ _ => (spanFrom ordered start).bind fun m span _ _ => .pure ?_
    rintro ⟨rfl, hspan⟩ ⟨rfl, hclose⟩ ⟨rfl, -⟩ ⟨-, hj⟩
    obtain rfl := hj hat.lt
    refine ⟨by omega, by simp, fun suffix hsuffix a b t hstart hle hinner => ?_⟩
    cases hsuffix
    exact .around rfl (hspan a b hstart (by omega)) ⟨i, hinner.place, hat, by omega, ⟨close, hclose⟩⟩ hinner
      (Nat.le_refl a) (by omega)
  · exact .pure ⟨Nat.le_refl i, fun _ => rfl, by simp⟩

omit ordered htype in
/-- Suffixes make a type of the one before them. -/
theorem Chain.suffixes {start : Span} {a b j : Nat} {suffixes : List (TypeSyntax → TypeSyntax)}
    (h : Chain (SuffixAt all start) i j suffixes) (hstart : Span.Over all a b start) (hle : b ≤ i)
    {t : TypeSyntax} (hat : Part.At all a i (.typeSyntax t)) :
    Part.At all a j (.typeSyntax (suffixes.foldl (fun type suffix => suffix type) t)) := by
  induction h generalizing t with
  | done _ last => rwa [last.2.1 rfl]
  | more le first _ ih => exact ih (Nat.le_trans hle le) (first.2.2 _ rfl a b t hstart hle hat)

theorem baseType : Reads all i (fun j t => Part.At all i j (.typeSyntax t)) (baseType type) := by
  refine .peek fun t ht => ?_
  split
  · rename_i hkind
    have hat := ht.kindAt (by rw [hkind]; decide)
    refine advance.bind fun j _ _ _ => .pure ?_
    rintro ⟨-, hj⟩
    obtain rfl := hj hat.lt
    exact .leaf rfl (.single (ht.of_lt hat.lt)) ⟨rfl, hkind ▸ hat⟩
  · exact tupleType htype ordered
  · refine (namedTypeOf htype ordered true).map fun j n _ _ hn => ?_
    exact .around rfl hn.1.place hn.1.place hn.1 (Nat.le_refl i) (Nat.le_refl j)
  · exact failAt _

theorem typeOf : Reads all i (fun j t => Part.At all i j (.typeSyntax t)) (typeOf type) :=
  (baseType htype ordered).bind fun j _ _ _ => (many (fun _ => typeSuffix ordered _) j).bind
    fun _ _ _ _ => .pure fun hsuffixes hbase => hsuffixes.suffixes hbase.place (Nat.le_refl j) hbase

end

variable (ordered : Token.InOrder all)
include ordered

theorem type (i : Nat) : Reads all i (fun j t => Part.At all i j (.typeSyntax t)) type :=
  .fix (Q := fun _ i j t => Part.At all i j (.typeSyntax t)) (fun _ hinner _ _ => typeOf (hinner ()) ordered)
    () i

theorem namedType (withArgs : Bool) (i : Nat) : Reads all i (NameAt all i) (namedType withArgs) :=
  namedTypeOf (type ordered) ordered withArgs

/-! ### Expressions -/

omit ordered in
/-- The end of a source is no literal. -/
theorem kind_ne_endOfFile {t : Token} {value : LiteralValue} (h : literalValue? t = .ok (some value)) :
    t.kind ≠ .endOfFile := by
  intro hkind
  unfold literalValue? at h
  rw [hkind] at h
  cases h

omit ordered in
theorem literal : Reads all i (fun j e => Part.At all i j (.expr e)) literal := by
  refine .peek fun t ht => ?_
  split
  · refine fun s hs => .modify <| .throw ?_
    obtain ⟨j, hle, hj⟩ := (hs.report _).exists_pass 1
    exact ⟨⟨j, hle, hj⟩, fun h => absurd h (by simp [ParserState.report, ParserState.pass])⟩
  · exact failExpecting _
  · rename_i value hvalue
    have hat := ht.kindAt (kind_ne_endOfFile hvalue)
    refine advance.bind fun j _ _ _ => .pure ?_
    rintro ⟨-, hj⟩
    obtain rfl := hj hat.lt
    exact .leaf rfl (.single (ht.of_lt hat.lt)) rfl

section

variable {additive : Parser Expr}
  (hadditive : ∀ i, Reads all i (fun j e => Part.At all i j (.expr e)) additive)
include hadditive

theorem primary : Reads all i (fun j e => Part.At all i j (.expr e)) (primary additive) := by
  refine .peek fun t ht => .ite (fun hparen => ?_) fun _ => .get fun s hs => .ite (fun h => ?_) fun _ =>
    .ite (fun _ => ?_) fun _ => literal
  · have hat := ht.kindAt (by rw [hparen]; decide)
    have hopen : KindAt all i .leftParen := hparen ▸ hat
    refine advance.bind fun j _ _ _ => (hadditive j).bind fun k inner _ _ => (expect (by decide)).bind
      fun l close _ _ => (spanFrom ordered _).bind fun m span _ _ => .pure ?_
    rintro ⟨rfl, hspan⟩ ⟨rfl, hclose⟩ hinner ⟨-, hj⟩
    obtain rfl := hj hat.lt
    have hlt := hinner.place.lt
    exact .around rfl (hspan i (i + 1) (.single (ht.of_lt hat.lt)) (by omega))
      ⟨hopen, hinner.place, ⟨close, hclose⟩⟩ hinner (by omega) (by omega)
  · simp only [isNameOf, ParserState.checkWord, Bool.and_eq_true, decide_eq_true_eq] at h
    have hat : KindAt all i .identifier := h.1.1 ▸ hs.current.kindAt (by rw [h.1.1]; decide)
    have hparen : KindAt all (i + 1) .leftParen := h.2 ▸ (hs.ahead 1).kindAt (by rw [h.2]; decide)
    refine advance.bind fun j _ _ _ => advance.bind fun j' _ _ _ => (namedType ordered true j').bind
      fun k target _ _ => (expect (by decide)).bind fun l close _ _ => (spanFrom ordered _).bind
        fun m span _ _ => .pure ?_
    rintro ⟨rfl, hspan⟩ ⟨rfl, hclose⟩ htarget ⟨-, hj'⟩ ⟨-, hj⟩
    obtain rfl := hj hat.lt
    obtain rfl := hj' hparen.lt
    have hlt := htarget.1.place.lt
    exact .around rfl (hspan i (i + 1) (.single (ht.of_lt hat.lt)) (by omega))
      ⟨hat, hparen, htarget.1.place, ⟨close, hclose⟩⟩ htarget.1 (by omega) (by omega)
  · refine (namedType ordered false i).map fun j n _ _ hn => ?_
    exact .around rfl hn.1.place hn.1.place hn.1 (Nat.le_refl i) (Nat.le_refl j)

omit hadditive in
/-- Signs make an expression of the one behind them. -/
theorem Chain.signs {j k : Nat} {signs : List Token} {operand : Expr}
    (h : Chain (fun i j t? => (t? = none → j = i) ∧ ∀ t ∈ t?, j = i + 1 ∧ all[i]? = some t ∧ t.kind = .minus)
      i j signs) (hat : Part.At all j k (.expr operand)) :
    Part.At all i k (.expr
      (signs.foldr (fun sign inner => .negate inner (sign.span.merge inner.span)) operand)) := by
  induction h with
  | done _ last => rwa [← last.1 rfl]
  | more _ first _ ih =>
      obtain ⟨rfl, hsign, hkind⟩ := first.2 _ rfl
      have hinner := ih hat
      exact .around rfl ((Span.Over.single hsign).join ordered hinner.place (Nat.le_refl _))
        ⟨⟨_, hsign, hkind⟩, hinner.place⟩ hinner (Nat.le_succ _) (Nat.le_refl _)

theorem unary : Reads all i (fun j e => Part.At all i j (.expr e)) (unary additive) := by
  refine (many (fun i => eat? (by decide) (fun t ht hkind => ?_) ?_) i).bind fun j signs _ _ =>
    (primary ordered hadditive).bind fun k operand _ _ => .pure fun hoperand hsigns =>
      hsigns.signs ordered hoperand
  · exact ⟨nofun, fun u hu => by cases hu; exact ⟨rfl, ht, hkind⟩⟩
  · exact ⟨fun _ => rfl, nofun⟩

omit hadditive in
/-- Summands make an expression of the one before them. -/
theorem Chain.summands {j k : Nat} {more : List Expr} {first : Expr}
    (h : Chain (fun i j e? => (e? = none → j = i) ∧ ∀ e ∈ e?, KindAt all i .plus ∧
      Part.At all (i + 1) j (.expr e)) k j more) (hat : Part.At all i k (.expr first)) :
    Part.At all i j (.expr (more.foldl (fun lhs rhs => .add lhs rhs (lhs.span.merge rhs.span)) first)) := by
  induction h generalizing first with
  | done _ last => rwa [last.1 rfl]
  | @more k l j e rest _ next _ ih =>
      obtain ⟨hplus, hrhs⟩ := next.2 _ rfl
      refine ih (.intro (hat.place.join ordered hrhs.place (Nat.le_succ k)) ⟨k, hat.place, hplus, hrhs.place⟩
        fun list hlist => ?_)
      obtain rfl := List.mem_singleton.1 hlist
      exact .cons (Nat.le_refl i) hat (hrhs.row.widen (Nat.le_succ k) (Nat.le_refl l))

theorem additiveOf : Reads all i (fun j e => Part.At all i j (.expr e)) (additiveOf additive) := by
  refine (unary ordered hadditive).bind fun j first _ _ => (many (fun i => whenever_eat (by decide)
    (fun hplus => (unary ordered hadditive).mono fun k e _ _ he => ?_) ?_) j).bind fun k more _ _ =>
      .pure fun hmore hfirst => hmore.summands ordered hfirst
  · exact ⟨nofun, fun e' he' => by cases he'; exact ⟨hplus, he⟩⟩
  · exact ⟨fun _ => rfl, nofun⟩

end

theorem additive (i : Nat) : Reads all i (fun j e => Part.At all i j (.expr e)) additive :=
  .fix (Q := fun _ i j e => Part.At all i j (.expr e)) (fun _ hinner _ _ => additiveOf ordered (hinner ()))
    () i

/-- An expression stands between its first and its last token, and ends where a search for its terminators
does.  No terminator stands outside brackets in one that is read as a constant. -/
def ValueAt (all : List Token) (terminators : List TokenKind) (i j : Nat) (e : Expr) : Prop :=
  Part.At all i j (.expr e) ∧ UpTo all terminators i j

omit ordered in
theorem ValueAt.fits {terminators : List TokenKind} {j : Nat} {e : Expr}
    (h : ValueAt all terminators i j e) :
    Part.FitsValue all terminators i j e := ⟨h.1.place, h.2⟩

theorem value {terminators : List TokenKind} (hterm : terminators ⊆ [.comma, .semicolon, .rightParen]) :
    Reads all i (ValueAt all terminators i) (Parser.expr terminators) := by
  refine expr (P := fun j e => Part.At all i j (.expr e) ∧ ConstantPhrase .sum (Token.between all i j))
    (fun hmem => ?_) ((additive ordered i).both (of_takes takes_additive (additive ordered i)))
    (fun j kind e hmem hat he => ?_) fun j span hupTo hover => ?_
  · exact absurd (hterm hmem) (by decide)
  · have hlt := he.1.place.lt
    refine ⟨he.1, Clear.stop ⟨Nat.le_of_lt hlt, ?_⟩ hat hmem⟩
    rw [← Token.between_append_drop (Nat.le_of_lt hlt), he.2.hidden hterm,
      Token.length_between (Nat.le_of_lt hat.lt)]
  · exact ⟨.leaf rfl (hover ordered) ⟨terminators, hupTo.search⟩, hupTo⟩

/-! ### Attributes and modifiers -/

/-- An argument stands between its first and its last token, with its value behind what says what it is
for. -/
structure ArgumentAt (all : List Token) (i j : Nat) (a : ArgumentSyntax) : Prop where
  place : Span.Over all i j a.span
  tokens : ∃ k, Part.FitsRole all i k a.role ∧ Part.FitsValue all [.comma, .rightParen] k j a.value
  value : Part.Row all i j [.expr a.value]

theorem argument : Reads all i (ArgumentAt all i) argument := by
  refine .get fun s hs => ?_
  extract_lets start separator rest
  have hrest : ∀ m role, i ≤ m → Reads all m (fun j a => Part.FitsRole all i m role → ArgumentAt all i j a)
      (rest role) := by
    intro m role him
    refine (value ordered (by simp)).bind fun j e hmj _ => (spanFrom ordered start).bind fun _ span hj _ =>
      .pure ?_
    rintro ⟨rfl, hspan⟩ hvalue hrole
    have hlt := hvalue.1.place.lt
    exact ⟨hspan i (i + 1) (.single (hs.current.of_lt (by omega))) (by omega), ⟨m, hrole, hvalue.fits⟩,
      hvalue.1.row.widen him (Nat.le_refl _)⟩
  refine .ite (fun h => ?_) fun _ => ?_
  · simp only [Bool.and_eq_true, Bool.or_eq_true, decide_eq_true_eq] at h
    have hidentifier := hs.kindAt_of_check (by decide) h.1
    have hseparator : KindAt all (i + 1) separator :=
      (hs.ahead 1).kindAt (by rcases h.2 with h | h <;> rw [show (s.ahead 1).kind = _ from h] <;> decide)
    refine nameToken.bind fun j name hij _ => advance.bind fun k _ hjk _ => ?_
    refine (pure (Q := fun l role => l = k ∧ (k = i + 2 → Span.Over all i (i + 1) name.span →
      Part.FitsRole all i k role)) ⟨rfl, fun hk hname => ?_⟩).bind fun l role hkl _ =>
        (hrest l role (by omega)).mono fun n a _ _ ha hrole hk hj => ha ?_
    · split
      · rename_i hcolon
        exact ⟨hidentifier, hname, hcolon ▸ hseparator, hk⟩
      · rename_i hcolon
        exact ⟨hidentifier, hname, (h.2.resolve_right hcolon) ▸ hseparator, hk⟩
    · obtain ⟨rfl, hname⟩ := hj hidentifier.lt
      rw [hrole.1]
      exact hrole.2 (hk.2 hseparator.lt) hname
  · exact (pure (Q := fun l role => l = i ∧ role = .positional) ⟨rfl, rfl⟩).bind fun l role hil _ =>
      (hrest l role hil).mono fun n a _ _ ha hrole => ha (by rw [hrole.2]; exact hrole.1)

theorem arguments (i : Nat) : Reads all i (Part.Listed all .comma (ArgumentAt all) i) arguments := by
  refine .fix (Q := fun _ i j list => Part.Listed all .comma (ArgumentAt all) i j list)
    (fun rest hrest _ i => ?_) () i
  refine .check (by decide) fun _ _ => .atEnd fun _ => .ite (fun _ => .pure .nil) fun _ => ?_
  refine (argument ordered).bind fun j a _ _ =>
    .eat (by decide) (fun hcomma => .ite (fun _ => ?_) (absurd rfl)) (.ite nofun fun _ => .pure .single)
  exact (hrest () (j + 1)).bind fun _ _ _ _ => .pure fun hlater hfirst => .cons hfirst hcomma hlater

omit ordered in
/-- Arguments between parentheses. -/
theorem row_arguments {k m : Nat} {list : List ArgumentSyntax}
    (h : Part.Listed all .comma (ArgumentAt all) (k + 1) m list)
    (hopen : KindAt all k .leftParen) (hclose : KindAt all m .rightParen) :
    Part.Row all (k + 1) m (list.map .argument) := by
  refine h.row fun a b x hx hstart hend => ⟨a, b, Nat.le_refl a, Nat.le_refl b, .intro hx.place
    ⟨hx.tokens, ?_⟩ fun list hlist => ?_⟩
  · refine ⟨?_, ?_, hend.elim (fun h => .inr (h ▸ hclose)) .inl⟩
    · rcases hstart with rfl | ⟨hpos, -⟩
      · exact Nat.succ_pos k
      · exact hpos
    · rcases hstart with rfl | ⟨-, hcomma⟩
      · exact .inl hopen
      · exact .inr hcomma
  · obtain rfl := List.mem_singleton.1 hlist
    exact hx.value

/-- An attribute stands between its first and its last token. -/
structure AttributeAt (all : List Token) (i j : Nat) (a : AttributeSyntax) : Prop where
  place : Span.Over all i j a.span
  tokens : ∃ k, Span.Over all i k a.name.span ∧
    (k = j ∧ a.arguments = [] ∨ KindAt all k .leftParen ∧ KindAt all (j - 1) .rightParen ∧
      Part.Listed all .comma (fun a b (x : ArgumentSyntax) => Span.Over all a b x.span) (k + 1)
      (j - 1) a.arguments)
  name : Part.Row all i j [.name a.name]
  arguments : Part.Row all i j (a.arguments.map .argument)

theorem attributeItem : Reads all i (AttributeAt all i) attributeItem := by
  refine .peek fun t ht => (namedType ordered true i).bind fun k name hik _ => ?_
  have hrest : ∀ m arguments, k ≤ m → Reads all m (fun j a =>
      (arguments = [] ∧ m = k ∨ KindAt all k .leftParen ∧ KindAt all (m - 1) .rightParen ∧
        Part.Listed all .comma (ArgumentAt all) (k + 1) (m - 1) arguments) → NameAt all i k name →
          AttributeAt all i j a)
      (do let span ← Parser.spanFrom t.span
          return ⟨name, arguments, span⟩) := by
    intro m arguments hkm
    refine (spanFrom ordered _).bind fun _ span hm hm' => .pure ?_
    rintro ⟨rfl, hspan⟩ harguments hname
    have hlt := hname.1.place.lt
    have hover := hspan i (i + 1) (.single (ht.of_lt (by omega))) (by omega)
    rcases harguments with ⟨rfl, rfl⟩ | ⟨hopen, hclose, hlisted⟩
    · exact ⟨hover, ⟨_, hname.1.place, .inl ⟨rfl, rfl⟩⟩, hname.1.row, .nil (by omega)⟩
    · exact ⟨hover, ⟨k, hname.1.place, .inr ⟨hopen, hclose, hlisted.mono fun _ _ _ h => h.place⟩⟩,
        hname.1.row.widen (Nat.le_refl i) hkm,
        (row_arguments hlisted hopen hclose).widen (by omega) (Nat.sub_le _ 1)⟩
  refine .eat (by decide) (fun hopen => .ite (fun _ => ?_) (absurd rfl)) (.ite nofun fun _ => ?_)
  · refine (arguments ordered (k + 1)).bind fun m list hkm _ =>
      (expect (by decide)).bind fun l close hml _ => ?_
    refine (pure (Q := fun n arguments => n = l ∧ arguments = list) ⟨rfl, rfl⟩).bind fun n arguments hln _ =>
      ?_
    refine (hrest n arguments (by omega)).mono fun o a _ _ ha hpure hclose hlist hname => ha (.inr ?_) hname
    obtain ⟨rfl, rfl⟩ := hpure
    obtain ⟨rfl, hclose⟩ := hclose
    exact ⟨hopen, ⟨close, hclose⟩, hlist⟩
  · refine (pure (Q := fun n arguments => n = k ∧ arguments = []) ⟨rfl, rfl⟩).bind fun n arguments hkn _ =>
      ?_
    exact (hrest n arguments hkn).mono fun o a _ _ ha hpure hname => ha (.inl ⟨hpure.2, hpure.1⟩) hname

/-- A further attribute of a list behind a comma.  A comma without one ends the list too. -/
def NextAttribute (all : List Token) (i j : Nat) : Option AttributeSyntax → Prop
  | none => j = i ∨ KindAt all i .comma ∧ j = i + 1
  | some a => KindAt all i .comma ∧ AttributeAt all (i + 1) j a

omit ordered in
/-- Attributes before the closing bracket of their list. -/
theorem row_attributes {j : Nat} {list : List AttributeSyntax}
    (h : Part.Listed all .comma (AttributeAt all) i j list)
    (hclose : KindAt all j .rightBracket) : Part.Row all i j (list.map .attributeItem) := by
  refine h.row fun a b x hx _ hend => ⟨a, b, Nat.le_refl a, Nat.le_refl b, .intro hx.place
    ⟨hx.tokens, hend.elim (fun h => .inr (h ▸ hclose)) .inl⟩ fun list hlist => ?_⟩
  rcases List.mem_cons.1 hlist with rfl | hlist
  · exact hx.name
  · obtain rfl := List.mem_singleton.1 hlist
    exact hx.arguments

theorem attributeList : Reads all i (fun j list => Part.At all i j (.attributeList list)) attributeList := by
  -- the group that the brackets make is known from what balances between them
  refine ((Even.attributeList_square i).both (S := fun j list => GroupAt all i j .leftBracket →
    Part.At all i j (.attributeList list)) ?_).mono fun j list hij hj h => h.2 (h.1.groupAt hij hj)
  refine (expect (by decide)).bind fun j open? hij _ => .get fun s hs => ?_
  extract_lets rest
  have hrest : ∀ m target?, j ≤ m → Reads all m (fun k list => Part.FitsLabel all .colon j m target? →
      j = i + 1 ∧ all[i]? = some open? ∧ open?.kind = .leftBracket → GroupAt all i k .leftBracket →
        Part.At all i k (.attributeList list)) (rest target?) := by
    intro m target? hjm
    refine (attributeItem ordered).bind fun k first hmk _ =>
      (many (Q := NextAttribute all) (fun n => ?_) k).bind
      fun l more _ _ => (expect (by decide)).bind fun n close _ _ =>
      (spanFrom ordered _).bind fun o span _ _ =>
        .pure ?_
    · exact .eat (by decide) (fun hcomma => .ite (fun _ => .check (by decide) fun _ _ =>
        .ite (fun _ => .pure (.inr ⟨hcomma, rfl⟩)) fun _ =>
          (attributeItem ordered).map fun _ _ _ _ h => ⟨hcomma, h⟩)
          (absurd rfl)) (.ite nofun fun _ => .pure (.inl rfl))
    · rintro ⟨rfl, hspan⟩ ⟨rfl, hclose⟩ hmore hfirst htarget ⟨rfl, hopen⟩ hgroup
      have hle := hmore.le
      have hlisted : Part.Listed all .comma (AttributeAt all) m l (first :: more) :=
        .ofChain hfirst hmore (fun _ _ _ h => h) fun _ _ h => h
      refine .intro (hspan i (i + 1) (.single hopen.1) (by omega)) ⟨hgroup, ⟨close, hclose⟩, m, htarget,
        hlisted.mono fun _ _ _ h => h.place⟩ fun list hlist => ?_
      obtain rfl := List.mem_singleton.1 hlist
      exact (row_attributes hlisted ⟨close, hclose⟩).widen (by omega) (Nat.le_succ l)
  refine .ite (fun h => ?_) fun _ => ?_
  · simp only [isTarget, Bool.and_eq_true, Bool.or_eq_true, decide_eq_true_eq] at h
    have hcolon : KindAt all (j + 1) .colon := h.2 ▸ (hs.ahead 1).kindAt (by rw [h.2]; decide)
    refine nameToken.bind fun k name hjk _ => advance.bind fun l _ hkl _ => ?_
    refine (pure (Q := fun m target? => m = l ∧ target? = some name) ⟨rfl, rfl⟩).bind fun m target? hlm _ =>
      (hrest m target? (by omega)).mono fun _ _ _ _ h hpure hl hk => h ?_
    obtain ⟨rfl, rfl⟩ := hpure
    obtain ⟨rfl, hname⟩ := hk (Nat.lt_of_succ_lt hcolon.lt)
    exact ⟨hname, hcolon, hl.2 hcolon.lt⟩
  · refine (pure (Q := fun m target? => m = j ∧ target? = none) ⟨rfl, rfl⟩).bind fun m target? hjm _ =>
      (hrest m target? hjm).mono fun _ _ _ _ h hpure => h ?_
    rw [hpure.2]
    exact hpure.1

/-- A further attribute list, which starts with the next token. -/
def NextList (all : List Token) (i j : Nat) : Option AttributeList → Prop
  | none => j = i
  | some list => Part.At all i j (.attributeList list)

theorem attributeLists : Reads all i (fun j lists => Chain (NextList all) i j lists) attributeLists :=
  many (fun _ => whenever_check (by decide) (fun _ => attributeList ordered) rfl) i

/-- A further modifier, if there is one. -/
def NextModifier (all : List Token) (i j : Nat) : Option Token → Prop
  | none => j = i
  | some _ => Part.ModifierAt all i ∧ j = i + 1

omit ordered in
theorem modifiers : Reads all i (fun j _ => ∃ tokens, Chain (NextModifier all) i j tokens) modifiers := by
  refine (many (Q := NextModifier all) (fun n => ?_) i).bind fun j tokens _ _ => .pure fun h => ⟨tokens, h⟩
  refine .get fun s hs => .ite (fun h => ?_) fun _ => .pure rfl
  have hat : Part.ModifierAt all n := by
    unfold isModifier at h
    split at h
    · rename_i hkind
      exact .inl (hkind ▸ hs.current.kindAt (by rw [hkind]; decide))
    · rename_i hkind
      rw [Bool.and_eq_true, List.contains_iff_mem] at h
      exact .inr ⟨_, hs.current.getElem? (by rw [hkind]; decide), hkind, h.1⟩
    · cases h
  exact advance.map fun _ _ _ _ h => ⟨hat, h.2 hat.lt⟩

omit ordered in
theorem Chain.modifiers {j : Nat} {list : List Token} (h : Chain (NextModifier all) i j list) :
    ∀ k, i ≤ k → k < j → Part.ModifierAt all k := by
  induction h with
  | done _ last =>
      obtain rfl : _ = _ := last
      exact fun k hle hlt => absurd hlt (Nat.not_lt.2 hle)
  | @more i k j a rest _ first _ ih =>
      obtain ⟨hat, rfl⟩ := first
      intro k hle hlt
      rcases Nat.lt_or_eq_of_le hle with hle | rfl
      · exact ih k hle hlt
      · exact hat

omit ordered in
/-- Attribute lists follow one another without a gap. -/
theorem Chain.tiled {j : Nat} {lists : List AttributeList} (h : Chain (NextList all) i j lists) :
    Part.Tiled (fun a b (list : AttributeList) => Span.Over all a b list.span ∧
      GroupAt all a b .leftBracket) i j lists := by
  induction h with
  | done _ last =>
      obtain rfl : _ = _ := last
      exact .nil
  | more _ first _ ih => exact .cons ⟨first.place, first.fits.1⟩ ih

/-- What stands before a declaration starts with the next token, and is nothing at all or starts with an
attribute list or a modifier. -/
structure HeadAt (all : List Token) (i j : Nat) (head : MemberHead) : Prop where
  start : i < all.length → Span.Over all i (i + 1) head.start
  fits : Part.FitsHead all i j head.attributes
  attributes : Part.Row all i j (head.attributes.map .attributeList)
  first : j = i ∨ KindAt all i .leftBracket ∨ KindAt all i .modifier ∨ KindAt all i .identifier

theorem memberHead : Reads all i (HeadAt all i) memberHead := by
  refine .peek fun t ht => (attributeLists ordered).bind fun j lists _ _ => modifiers.bind fun k _ _ _ =>
    .pure ?_
  rintro ⟨tokens, hmodifiers⟩ hlists
  refine ⟨fun hlt => .single (ht.of_lt hlt), ⟨j, hlists.tiled, hmodifiers.le, hmodifiers.modifiers⟩,
    (hlists.row fun a b list h => ⟨a, b, Nat.le_refl a, Nat.le_refl b, h⟩).widen (Nat.le_refl i)
      hmodifiers.le, ?_⟩
  cases hlists with
  | more _ first _ => exact .inr (.inl first.fits.1.opens)
  | done _ last =>
      obtain rfl : j = i := last
      cases hmodifiers with
      | more _ first _ => exact .inr (.inr first.1.kindAt)
      | done _ last => exact .inl last

end Graft.Parser.Reads
