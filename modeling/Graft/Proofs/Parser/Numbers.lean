/-
Module: Graft.Proofs.Parser.Numbers
Purpose: The numbers of the type declarations of a source.
Main exports: SyntaxNode.ids, Parser.Numbers, SourceFile.ids_of_parse, SourceFile.ids_in_text_order

A declaration is numbered before its members are, and what cannot be read uses numbers up.  So the
numbers grow in the order of the text, and no two declarations of a source have the same.  A number is
lost only where an error is reported: without errors the numbers leave none out.
-/
import Graft.Proofs.Parser.Names
import Graft.Syntax.Node

namespace Graft

/-- The numbers of the type declarations among nodes. -/
def SyntaxNode.ids (nodes : List SyntaxNode) : List DeclId :=
  (nodes.filterMap SyntaxNode.type?).map (·.id)

namespace SyntaxNode

theorem ids_append (a b : List SyntaxNode) : ids (a ++ b) = ids a ++ ids b := by
  simp [ids]

theorem ids_ofType (decl : TypeDecl) : ids (ofType decl) = decl.id :: ids (ofMembers decl.members) := by
  obtain ⟨id, attributes, modifiers, kind, name, typeParams, members, span⟩ := decl
  rw [ofType]
  rfl

theorem ids_ofMembers (members : List MemberDecl) :
    ids (ofMembers members) = members.flatMap fun m => ids (ofMember m) := by
  induction members with
  | nil => rfl
  | cons m rest ih => rw [ofMembers, ids_append, ih, List.flatMap_cons]

theorem ids_ofMember_eq_nil {m : MemberDecl} (h : MemberDecl.Named (fun _ => False) m) :
    ids (ofMember m) = [] := by
  cases m with
  | type decl =>
      obtain ⟨id, attributes, modifiers, kind, name, typeParams, members, span⟩ := decl
      simp [MemberDecl.Named, TypeDeclOf.Named] at h
  | field _ | property _ | method _ | event _ | other _ => rw [ofMember]; rfl

theorem ids_ofNamespaceMembers_nil : ids (ofNamespaceMembers []) = [] := by
  rw [ofNamespaceMembers]
  rfl

theorem ids_ofNamespaceMembers_append (a b : List NamespaceMember) :
    ids (ofNamespaceMembers (a ++ b)) =
      ids (ofNamespaceMembers a) ++ ids (ofNamespaceMembers b) := by
  induction a with
  | nil => rw [ids_ofNamespaceMembers_nil, List.nil_append, List.nil_append]
  | cons m rest ih =>
      cases m <;> rw [List.cons_append, ofNamespaceMembers, ofNamespaceMembers, ids_append, ids_append,
        ih, List.append_assoc]

/-- Directives declare no types. -/
theorem filterMap_directives (usings : List UsingDirective) (nodes : List SyntaxNode) :
    (usings.map directive ++ nodes).filterMap type? = nodes.filterMap type? := by
  induction usings with
  | nil => rfl
  | cons _ rest ih => exact ih

theorem ids_directives (usings : List UsingDirective) (nodes : List SyntaxNode) :
    ids (usings.map directive ++ nodes) = ids nodes := by
  rw [ids, filterMap_directives]
  rfl

theorem ids_ofNamespace (decl : NamespaceDecl) :
    ids (ofNamespace decl) = ids (ofNamespaceMembers decl.members) := by
  obtain ⟨name, fileScoped, usings, members, span⟩ := decl
  rw [ofNamespace]
  exact ids_directives usings _

end SyntaxNode

/-- Numbers of one source that grow, from one number on and below another. -/
structure DeclId.Ascend (source : SourceId) (low high : Nat) (ids : List DeclId) : Prop where
  ordered : ids.Pairwise fun a b => a.index < b.index
  bounds : ∀ id ∈ ids, id.source = source ∧ low ≤ id.index ∧ id.index < high

namespace DeclId.Ascend

variable {source : SourceId} {low mid high : Nat} {ids more : List DeclId}

theorem nil : Ascend source low high [] := ⟨.nil, by simp⟩

theorem append (h : Ascend source low mid ids) (hle : low ≤ mid) (h' : Ascend source mid high more)
    (hle' : mid ≤ high) : Ascend source low high (ids ++ more) where
  ordered := by
    refine List.pairwise_append.2 ⟨h.ordered, h'.ordered, fun a ha b hb => ?_⟩
    exact Nat.lt_of_lt_of_le (h.bounds a ha).2.2 (h'.bounds b hb).2.1
  bounds := by
    intro id hid
    rcases List.mem_append.1 hid with hid | hid
    · obtain ⟨hsource, hlow, hhigh⟩ := h.bounds id hid
      exact ⟨hsource, hlow, Nat.lt_of_lt_of_le hhigh hle'⟩
    · obtain ⟨hsource, hlow, hhigh⟩ := h'.bounds id hid
      exact ⟨hsource, Nat.le_trans hle hlow, hhigh⟩

theorem nodup (h : Ascend source low high ids) : ids.Nodup :=
  h.ordered.imp fun hlt heq => by
    rw [heq] at hlt
    exact Nat.lt_irrefl _ hlt

theorem of_cons {id : DeclId} (h : Ascend source low high (id :: ids)) :
    low ≤ id.index ∧ id.index < high ∧ Ascend source (id.index + 1) high ids := by
  obtain ⟨hhead, hrest⟩ := List.pairwise_cons.1 h.ordered
  obtain ⟨-, hlow, hhigh⟩ := h.bounds id List.mem_cons_self
  refine ⟨hlow, hhigh, hrest, fun other hother => ?_⟩
  obtain ⟨hsource, -, hother'⟩ := h.bounds other (List.mem_cons_of_mem _ hother)
  exact ⟨hsource, hhead other hother, hother'⟩

/-- There are no more declarations than numbers. -/
theorem length_le (h : Ascend source low high ids) (hle : low ≤ high) : low + ids.length ≤ high := by
  induction ids generalizing low with
  | nil => exact hle
  | cons id rest ih =>
      obtain ⟨hlow, hhigh, hrest⟩ := h.of_cons
      have hroom := ih hrest hhigh
      rw [List.length_cons]
      omega

/-- As many declarations as there are numbers have all of these. -/
theorem indices_eq (h : Ascend source low (low + ids.length) ids) :
    ids.map (·.index) = List.range' low ids.length := by
  induction ids generalizing low with
  | nil => rfl
  | cons id rest ih =>
      obtain ⟨hlow, hhigh, hrest⟩ := h.of_cons
      have hroom := hrest.length_le hhigh
      rw [List.length_cons] at hrest hroom
      obtain rfl : id.index = low := by omega
      rw [show id.index + (rest.length + 1) = id.index + 1 + rest.length by omega] at hrest
      rw [List.map_cons, List.length_cons, List.range'_succ, ih hrest]

end DeclId.Ascend

namespace Parser

variable {α β ι : Type}

/-- In a source a state that comes after another one: no number is given back and no error is taken
back, and the parser panics only with an error reported. -/
structure Onward (source : SourceId) (s t : ParserState) : Prop where
  source : t.source = source
  nextDecl : s.nextDecl ≤ t.nextDecl
  errors : s.errors ≠ [] → t.errors ≠ []
  tidy : t.panicking = true → t.errors ≠ []

namespace Onward

variable {source : SourceId} {s t u : ParserState}

theorem trans (h : Onward source s t) (h' : Onward source t u) : Onward source s u :=
  ⟨h'.source, Nat.le_trans h.nextDecl h'.nextDecl, fun herrors => h'.errors (h.errors herrors), h'.tidy⟩

/-- A state that is come to can be gone on from. -/
theorem self (h : Onward source s t) : Onward source t t := ⟨h.source, Nat.le_refl _, id, h.tidy⟩

end Onward

/-- Declarations that got their numbers between two states.  If no error is reported, nothing else got
one. -/
structure Numbered (source : SourceId) (s t : ParserState) (ids : List DeclId) : Prop where
  ascend : DeclId.Ascend source s.nextDecl t.nextDecl ids
  all : t.errors = [] → t.nextDecl = s.nextDecl + ids.length

/-- In a source the parser numbers declarations on from the next number.  If it yields a value, those
that are kept satisfy `Q` together with the value. -/
def Numbers (source : SourceId) (Q : α → List DeclId → Prop) (p : Parser α) : Prop :=
  ∀ s, Onward source s s →
    Outcome (fun a t => Onward source s t ∧ ∃ ids, Numbered source s t ids ∧ Q a ids) (Onward source s) p s

/-- A state from which no declaration was numbered since another one. -/
def Quiet (source : SourceId) (start s : ParserState) :
    Prop := Onward source start s ∧ s.nextDecl = start.nextDecl

/-- The next number stays as it is. -/
theorem invariant_quiet (source : SourceId) (start : ParserState) :
    Invariant (Quiet source start) fun _ => True where
  pass _ h := ⟨⟨h.1.source, h.1.nextDecl, h.1.errors, h.1.tidy⟩, h.2⟩
  report e h := by
    have herrors : ∀ {s : ParserState}, (s.report e).errors ≠ [] := by simp [ParserState.report]
    exact ⟨⟨h.1.source, h.1.nextDecl, fun _ => herrors, fun _ => herrors⟩, h.2⟩
  panicking _ htidy h := ⟨⟨h.1.source, h.1.nextDecl, h.1.errors, htidy⟩, h.2⟩
  rewind h _ := ⟨⟨h.1.source, h.1.nextDecl, h.1.errors, h.1.tidy⟩, h.2⟩
  ahead _ _ := trivial

namespace Numbers

variable {source : SourceId} {Q : α → List DeclId → Prop} {R : β → List DeclId → Prop}
  {p : Parser α} {f : α → Parser β}

/-- A parser that numbers nothing. -/
theorem ofYields {P : α → Prop} (h : ∀ start, Yields (Quiet source start) P p) :
    Numbers source (fun a ids => P a ∧ ids = []) p := fun s hs =>
  (h s s ⟨hs, rfl⟩).mono
    (fun _ _ ⟨ht, ha⟩ => ⟨ht.1, [], ⟨.nil, fun _ => ht.2⟩, ha, rfl⟩) fun _ ht => ht.1

theorem pure {a : α} (h : Q a []) : Numbers source Q (Pure.pure a) := fun _ hs =>
  .pure ⟨hs, [], ⟨.nil, fun _ => rfl⟩, h⟩

theorem bind (hp : Numbers source Q p)
    (hf : ∀ a ids, Q a ids → Numbers source (fun b more => R b (ids ++ more)) (f a)) :
    Numbers source R (p >>= f) := by
  refine fun s hs => ((hp s hs).mono (fun _ _ h => h) fun _ h => h).bind fun a t _ ⟨ht, ids, hids, hQ⟩ => ?_
  refine (hf a ids hQ t ht.self).mono (fun b u ⟨hu, more, hmore, hR⟩ => ?_) fun u hu => ht.trans hu
  refine ⟨ht.trans hu, ids ++ more, ⟨?_, fun clean => ?_⟩, hR⟩
  · exact hids.ascend.append ht.nextDecl hmore.ascend hu.nextDecl
  · have hfirst := hids.all (Classical.byContradiction fun herrors => hu.errors herrors clean)
    rw [hmore.all clean, hfirst, List.length_append, Nat.add_assoc]

/-- A step that numbers nothing. -/
theorem silent {P : α → Prop} (hp : ∀ start, Yields (Quiet source start) P p)
    (hf : ∀ a, P a → Numbers source R (f a)) : Numbers source R (p >>= f) :=
  .bind (.ofYields hp) fun a ids ⟨ha, hids⟩ => by
    subst hids
    exact hf a ha

theorem map {g : α → β} (hp : Numbers source Q p) (hg : ∀ a ids, Q a ids → R (g a) ids) :
    Numbers source R (g <$> p) := fun s hs =>
  (hp s hs).map fun a _ ⟨ht, ids, hids, hQ⟩ => ⟨ht, ids, hids, hg a ids hQ⟩

theorem ite {c : Prop} [Decidable c] {q : Parser α} (hp : c → Numbers source Q p)
    (hq : ¬c → Numbers source Q q) : Numbers source Q (if c then p else q) := fun s hs =>
  .ite (fun h => hp h s hs) fun h => hq h s hs

/-- What is passed in place of being read loses its numbers, and is reported. -/
theorem recovering {fallback : α} (hfallback : Q fallback []) (hp : Numbers source Q p) :
    Numbers source Q (recovering fallback p) := by
  refine fun s hs => (hp s hs).tryCatch fun e t _ ht => .modify <| .pure ?_
  have hrecord := (invariant_quiet source t).toStable.record e ⟨ht.self, rfl⟩
  have hresume := (invariant_quiet source (t.record e)).toStable.synchronize ⟨hrecord.1.self, rfl⟩
  refine ⟨ht.trans (hrecord.1.trans hresume.1), [], ⟨.nil, fun clean => ?_⟩, hfallback⟩
  exact absurd clean (hresume.1.errors (t.errors_record_of_tidy ht.tidy e))

theorem fix {Q : ι → α → List DeclId → Prop} {step : (ι → Parser α) → ι → Parser α}
    (hstep : ∀ inner, (∀ i, Numbers source (Q i) (inner i)) → ∀ i, Numbers source (Q i) (step inner i))
    (i : ι) : Numbers source (Q i) (fix step i) := by
  have hunfold : ∀ rounds i, Numbers source (Q i) (unfold step rounds i) := by
    intro rounds
    induction rounds with
    | zero => exact fun _ _ hs => hs
    | succ rounds ih => exact fun i => hstep _ ih i
  exact fun s hs => hunfold _ i s hs

/-- The values that an item yields, each with the declarations numbered in it. -/
theorem many (ids : α → List DeclId) {item : Parser (Option α)}
    (hitem : Numbers source (fun a? list => list = a?.toList.flatMap ids) item) :
    Numbers source (fun values list => list = values.flatMap ids) (many item) := by
  refine fix (Q := fun _ (values : List α) list => list = values.flatMap ids) (fun rest hrest _ => ?_) ()
  refine bind hitem fun a? list hlist => ?_
  cases a? with
  | none => exact pure (by simpa using hlist)
  | some a =>
      refine bind (hrest ()) fun values more hmore => pure ?_
      rw [hlist, hmore]
      simp

end Numbers

/-! ### Declarations -/

section

variable {source : SourceId}

theorem numbers_newDeclId : Numbers source (fun id ids => ids = [id]) newDeclId := by
  intro s hs
  have hascend : DeclId.Ascend source s.nextDecl (s.nextDecl + 1) [⟨s.source, s.nextDecl⟩] := by
    refine ⟨List.pairwise_singleton _ _, fun id hid => ?_⟩
    obtain rfl := List.mem_singleton.1 hid
    exact ⟨hs.source, Nat.le_refl _, Nat.lt_succ_self _⟩
  exact .of_eq (p := newDeclId) rfl
    ⟨⟨hs.source, Nat.le_succ _, hs.errors, hs.tidy⟩, [⟨s.source, s.nextDecl⟩], ⟨hascend, fun _ => rfl⟩, rfl⟩

section

variable {typeDecl : MemberHead → Parser TypeDecl}
  (htypeDecl : ∀ head, Numbers source (fun decl ids => ids = SyntaxNode.ids (SyntaxNode.ofType decl))
    (typeDecl head))
include htypeDecl

theorem numbers_member (typeName : String) :
    Numbers source (fun m ids => ids = SyntaxNode.ids (SyntaxNode.ofMember m))
      (member typeDecl typeName) := by
  refine .silent (fun start => (invariant_quiet source start).body.memberHead) fun head _ =>
    .silent (fun _ => Yields.get.keeps) fun s _ => .ite (fun _ => ?_) fun _ => ?_
  · refine .map (htypeDecl head) fun decl ids hids => ?_
    rw [hids, SyntaxNode.ofMember]
  · have hquiet := Numbers.ofYields fun start => (invariant_quiet source start).memberAfter
      (P := fun _ => False) typeName head
    refine fun s hs => (hquiet s hs).mono (fun m t hm => ?_) fun _ ht => ht
    obtain ⟨ht, ids, hids, hnamed, hnone⟩ := hm
    exact ⟨ht, ids, hids, hnone.trans (SyntaxNode.ids_ofMember_eq_nil hnamed).symm⟩

theorem numbers_typeBody (typeName : String) :
    Numbers source (fun members ids => ids = SyntaxNode.ids (SyntaxNode.ofMembers members))
      (typeBody typeDecl typeName) := by
  let idsOf : Option MemberDecl → List DeclId := fun m? =>
    m?.toList.flatMap fun m => SyntaxNode.ids (SyntaxNode.ofMember m)
  refine .bind (.many idsOf ?_) fun members ids hids => .pure ?_
  · refine .silent (fun _ => .atEnd) fun _ _ => .silent (fun _ => .check _) fun _ _ =>
      .ite (fun _ => .pure rfl) fun _ => .silent (fun start => (invariant_quiet source start).eat _)
        fun _ _ => .ite (fun _ => .pure rfl) fun _ => ?_
    refine .map (Q := fun m? ids => ids = idsOf m?) (.recovering rfl ?_) fun m? ids hids => ?_
    · refine .map (numbers_member htypeDecl typeName) fun m ids hids => ?_
      simpa [idsOf] using hids
    · simpa using hids
  · rw [hids, List.append_nil, SyntaxNode.ids_ofMembers]
    clear hids
    induction members with
    | nil => rfl
    | cons m? rest ih =>
        cases m? with
        | none => simpa [idsOf] using ih
        | some m => simp [idsOf, ih]

theorem numbers_typeMembers (kind : TypeKind) (typeName : String) :
    Numbers source (fun members ids => ids = SyntaxNode.ids (SyntaxNode.ofMembers members))
      (typeMembers typeDecl kind typeName) := by
  refine .silent (fun start => (invariant_quiet source start).eat _) fun _ _ =>
    .ite (fun _ => .pure rfl) fun _ => .silent (fun start => (invariant_quiet source start).expect _)
      fun _ _ => ?_
  extract_lets rest
  have hrest : ∀ members, Numbers source
      (fun all more => SyntaxNode.ids (SyntaxNode.ofMembers members) ++ more =
        SyntaxNode.ids (SyntaxNode.ofMembers all))
        (rest members) := fun members =>
    .silent (fun start => (invariant_quiet source start).closingBrace) fun _ _ =>
      .silent (fun start => (invariant_quiet source start).eat _) fun _ _ => .pure (by simp)
  refine .ite (fun _ => ?_) fun _ => ?_
  · exact .silent (fun start => (invariant_quiet source start).body.skipUntil _) fun _ _ =>
      .silent (P := fun members => members = []) (fun _ => .pure rfl) fun members hmembers => by
        subst hmembers
        exact hrest []
  · refine .bind (numbers_typeBody htypeDecl typeName) fun members ids hids => ?_
    subst hids
    exact hrest members

theorem numbers_typeDeclOf (head : MemberHead) :
    Numbers source (fun decl ids => ids = SyntaxNode.ids (SyntaxNode.ofType decl))
      (typeDeclOf typeDecl head) := by
  refine .bind numbers_newDeclId fun id ids hids =>
    .silent (fun start => (invariant_quiet source start).typeKind) fun kind _ =>
      .silent (fun start => (invariant_quiet source start).body.ident) fun name _ =>
        .silent (fun start => (invariant_quiet source start).body.typeParams) fun _ _ =>
          .silent (fun start => (invariant_quiet source start).body.skipBases) fun _ _ =>
            .bind (numbers_typeMembers htypeDecl kind name.name) fun members more hmore =>
              .silent (fun _ => .spanFrom _) fun _ _ => .pure ?_
  rw [SyntaxNode.ids_ofType, hids, hmore]
  simp

end

theorem numbers_typeDecl (head : MemberHead) :
    Numbers source (fun decl ids => ids = SyntaxNode.ids (SyntaxNode.ofType decl)) (typeDecl head) :=
  .fix (Q := fun _ decl ids => ids = SyntaxNode.ids (SyntaxNode.ofType decl))
    (fun _ hinner head => numbers_typeDeclOf hinner head) head

theorem numbers_namespaceType : Numbers source
    (fun decl? ids => ids = SyntaxNode.ids (SyntaxNode.ofNamespaceMembers (decl?.toList.map .type)))
    namespaceType := by
  refine .silent (fun start => (invariant_quiet source start).body.memberHead) fun head _ =>
    .silent (fun _ => Yields.get.keeps) fun _ _ => .ite (fun _ => ?_) fun _ => .ite (fun _ => ?_) fun _ => ?_
  · refine .map (numbers_typeDecl head) fun decl ids hids => ?_
    rw [hids, Option.toList_some, List.map_singleton, SyntaxNode.ofNamespaceMembers,
      SyntaxNode.ofNamespaceMembers, List.append_nil]
  · exact .silent (fun start => (invariant_quiet source start).body.skipUntil _) fun _ _ =>
      .silent (fun start => (invariant_quiet source start).expect _) fun _ _ =>
        .pure SyntaxNode.ids_ofNamespaceMembers_nil.symm
  · exact fun _ hs => hs

section

variable {space : Parser NamespaceDecl}
  (hspace : Numbers source (fun decl ids => ids = SyntaxNode.ids (SyntaxNode.ofNamespace decl)) space)
include hspace

theorem numbers_namespaceItem : Numbers source
    (fun body ids => ids = SyntaxNode.ids (SyntaxNode.ofNamespaceMembers body.members))
      (namespaceItem space) := by
  refine .silent (fun _ => Yields.get.keeps) fun _ _ => .ite (fun _ => ?_) fun _ =>
    .ite (fun _ => ?_) fun _ => .ite (fun _ => ?_) fun _ => .ite (fun _ => ?_) fun _ => ?_
  · exact .silent (fun start => (invariant_quiet source start).usingDirective) fun _ _ =>
      .pure SyntaxNode.ids_ofNamespaceMembers_nil.symm
  · exact .silent (fun start => (invariant_quiet source start).body.attributeList) fun _ _ =>
      .pure SyntaxNode.ids_ofNamespaceMembers_nil.symm
  · refine .bind hspace fun decl ids hids => .pure ?_
    dsimp only
    rw [hids, SyntaxNode.ofNamespaceMembers, SyntaxNode.ofNamespaceMembers, List.append_nil,
      List.append_nil]
  · exact .silent (fun start => (invariant_quiet source start).advance) fun _ _ _ hs => hs
  · refine .bind numbers_namespaceType fun decl? ids hids => .pure ?_
    rw [hids, List.append_nil]

theorem numbers_namespaceBody (braced : Bool) : Numbers source
    (fun body ids => ids = SyntaxNode.ids (SyntaxNode.ofNamespaceMembers body.members))
    (namespaceBody space braced) := by
  let idsOf : NamespaceBody → List DeclId := fun body =>
    SyntaxNode.ids (SyntaxNode.ofNamespaceMembers body.members)
  refine .bind (.many idsOf ?_) fun parts ids hids => .pure ?_
  · refine .silent (fun _ => .atEnd) fun _ _ => .silent (fun _ => .check _) fun _ _ =>
      .ite (fun _ => .pure rfl) fun _ => ?_
    refine .map (Numbers.recovering (Q := fun body ids => ids = idsOf body)
      SyntaxNode.ids_ofNamespaceMembers_nil.symm (numbers_namespaceItem hspace)) fun body ids hids => ?_
    simpa using hids
  · rw [hids, List.append_nil]
    clear hids
    induction parts with
    | nil => exact SyntaxNode.ids_ofNamespaceMembers_nil.symm
    | cons part rest ih =>
        rw [List.flatMap_cons, ih]
        exact (SyntaxNode.ids_ofNamespaceMembers_append _ _).symm

theorem numbers_namespaceDeclOf : Numbers source
    (fun decl ids => ids = SyntaxNode.ids (SyntaxNode.ofNamespace decl)) (namespaceDeclOf space) := by
  refine .silent (fun start => (invariant_quiet source start).expect _) fun _ _ =>
    .silent (fun start => (invariant_quiet source start).body.ident) fun first _ =>
      .silent (P := fun _ => True) (fun start => Yields.keeps_many (Yields.whenever
        ((invariant_quiet source start).eat .dot) (invariant_quiet source start).body.ident).keeps)
        fun more _ => .silent (fun start => (invariant_quiet source start).eat _) fun _ _ => ?_
  extract_lets rest
  have hrest : ∀ body : NamespaceBody, Numbers source
      (fun decl ids => SyntaxNode.ids (SyntaxNode.ofNamespaceMembers body.members) ++ ids =
        SyntaxNode.ids (SyntaxNode.ofNamespace decl)) (rest body) := fun body =>
    .silent (fun _ => .spanFrom _) fun _ _ => .pure <| by
      rw [List.append_nil, SyntaxNode.ids_ofNamespace]
  refine .ite (fun _ => ?_) fun _ => ?_
  · refine .bind (numbers_namespaceBody hspace false) fun body ids hids => ?_
    subst hids
    exact hrest body
  · refine .silent (fun start => (invariant_quiet source start).expect _) fun _ _ =>
      .bind (numbers_namespaceBody hspace true) fun body ids hids => ?_
    subst hids
    exact .silent (fun start => (invariant_quiet source start).closingBrace) fun _ _ =>
      .silent (fun start => (invariant_quiet source start).eat _) fun _ _ =>
        .silent (P := fun b => b = body) (fun _ => .pure rfl) fun b hb => by
          subst hb
          exact hrest b

end

theorem numbers_sourceFile :
    Numbers source (fun file ids => ids = SyntaxNode.ids file.nodes) sourceFile := by
  refine .silent (fun _ => Yields.get.keeps) fun _ _ => .bind (numbers_namespaceBody (.fix
    (Q := fun _ decl ids => ids = SyntaxNode.ids (SyntaxNode.ofNamespace decl))
    (fun _ hinner _ => numbers_namespaceDeclOf (hinner ())) ()) false) fun body ids hids => .pure ?_
  rw [hids, List.append_nil]
  exact (SyntaxNode.ids_directives body.usings _).symm

end

end Parser

namespace SourceFile

/-- However much of a source can be read, its declarations are numbered in the order of the text, and
without errors no number is left out. -/
theorem numbered_ofText (source : SourceId) (text : String) :
    ∃ high, DeclId.Ascend source 0 high ((ofText source text).1.typeDecls.map (·.id)) ∧
      ((ofText source text).2 = [] → high = ((ofText source text).1.typeDecls.map (·.id)).length) := by
  have hrun := Parser.numbers_sourceFile (ParserState.ofText source text) ⟨rfl, Nat.le_refl _, id, nofun⟩
  unfold SourceFile.ofText EStateM.run
  cases hresult : Parser.sourceFile (.ofText source text) with
  | ok parsed s =>
      obtain ⟨-, ids, hids, rfl⟩ := hrun.of_ok hresult
      exact ⟨s.nextDecl, hids.ascend, fun clean => (hids.all clean).trans (Nat.zero_add _)⟩
  | error e s =>
      have hblank : (blank source).typeDecls.map (·.id) = [] := SyntaxNode.ids_ofNamespaceMembers_nil
      dsimp only
      rw [hblank]
      exact ⟨0, .nil, fun _ => rfl⟩

/-- The declarations of a source have numbers of the source, and these grow in the order of the
text. -/
theorem ids_of_parse {source : SourceId} {text : String} {file : SourceFile}
    (h : SourceFile.parse source text = .ok file) :
    ∃ high, DeclId.Ascend source 0 high (file.typeDecls.map (·.id)) := by
  obtain ⟨high, hascend, -⟩ := numbered_ofText source text
  unfold SourceFile.parse at h
  split at h
  · rename_i heq
    cases h
    rw [heq] at hascend
    exact ⟨high, hascend⟩
  · cases h

/-- In whatever could be read of a source, each declaration has a number of the source.  The numbers grow
in the order of the text, so no two declarations have the same, and without errors they are all the numbers
below how many declarations there are. -/
theorem ids_in_text_order (source : SourceId) (text : String) :
    let ids := (ofText source text).1.typeDecls.map (·.id)
    (∀ id ∈ ids, id.source = source) ∧ (ids.map (·.index)).Pairwise (· < ·) ∧ ids.Nodup ∧
      ((ofText source text).2 = [] → ids.map (·.index) = List.range ids.length) := by
  intro ids
  obtain ⟨high, hascend, hall⟩ := numbered_ofText source text
  refine ⟨fun id hid => (hascend.bounds id hid).1, ?_, hascend.nodup, fun clean => ?_⟩
  · exact List.pairwise_map.2 hascend.ordered
  · rw [hall clean, ← Nat.zero_add (List.length _)] at hascend
    rw [List.range_eq_range']
    exact hascend.indices_eq

end SourceFile

end Graft
