/-
Module: Graft.Proofs.Parser.CleanRuns
Purpose: The items of a source that is read without an error.
Main exports: Parser.Items.errors_eq_nil, Parser.namespaceItem_of_round, Parser.Clean, Parser.typeDecl_head

Errors are only added.  So where none is reported at the end, none of the items before was passed in place of
being read, and each one starts in a state that nothing but its place in the source tells from the first one.
-/
import Graft.Proofs.Parser.Resumed
import Graft.Proofs.Parser.LoneField

namespace Graft.Parser

open Token (KindAt between)
open Skip (startsDeclaration)

variable {α β : Type} {source : SourceId} {s t u : ParserState} {all : List Token} {i j k : Nat}
  {part : NamespaceBody} {parts : List NamespaceBody}

/-- What a sequence yields, its second part yields behind the first one. -/
theorem exists_of_bind {p : Parser α} {f : α → Parser β} {b : β} (h : (p >>= f) s = .ok b t) :
    ∃ a u, p s = .ok a u ∧ f a u = .ok b t := by
  change EStateM.bind p f s = _ at h
  unfold EStateM.bind at h
  cases hp : p s with
  | ok a u =>
      rw [hp] at h
      exact ⟨a, u, rfl, h⟩
  | error e u =>
      rw [hp] at h
      cases h

/-! ### Rounds -/

/-- An error stays. -/
theorem keeps_errors_namespaceRound : Keeps (fun s => s.errors ≠ []) (namespaceRound false) :=
  .bind .atEnd fun _ _ => .bind (.check _) fun _ _ => .ite (fun _ => .pure trivial) fun _ =>
    .map (invariant_errors.recovering trivial
      (invariant_errors.namespaceItem invariant_errors.namespaceDecl).keeps) fun _ _ => trivial

theorem errors_eq_nil_of_round {part? : Option NamespaceBody} (h : namespaceRound false s = .ok part? t)
    (clean : t.errors = []) : s.errors = [] :=
  Classical.byContradiction fun herrors => ((keeps_errors_namespaceRound s herrors).of_ok h).1 clean

/-- Where no error is reported at the end, none is before. -/
theorem Items.errors_eq_nil (h : Items (namespaceRound false) s parts u) (clean : u.errors = []) :
    s.errors = [] := by
  induction h with
  | done last => exact errors_eq_nil_of_round last clean
  | more first _ _ ih => exact errors_eq_nil_of_round first (ih clean)

/-- Before the end a round reads an item. -/
theorem namespaceRound_of_more (more : s.atEnd = false) :
    namespaceRound false s = (some <$> recovering .empty (namespaceItem namespaceDecl)) s := by
  change (if s.atEnd || (false && s.check .rightBrace) then Pure.pure none else
    some <$> recovering .empty (namespaceItem namespaceDecl) : Parser (Option NamespaceBody)) s = _
  rw [more]
  rfl

/-- Only at the end no item comes. -/
theorem atEnd_of_round (h : namespaceRound false s = .ok none t) : s.atEnd = true := by
  refine Classical.byContradiction fun hmore => ?_
  rw [namespaceRound_of_more (Bool.eq_false_iff.2 hmore)] at h
  obtain ⟨part, v, -, hpart⟩ := exists_of_bind (f := fun part => Pure.pure (some part)) h
  cases hpart

theorem not_atEnd_of_round (h : namespaceRound false s = .ok (some part) t) : s.atEnd = false := by
  refine Bool.eq_false_iff.2 fun hend => ?_
  rw [namespaceRound_eq_none (ParserState.atEnd_iff.1 hend)] at h
  cases h

/-- An item that is not reported is read. -/
theorem namespaceItem_of_round (hs : s.Stands all i) (h : namespaceRound false s = .ok (some part) t)
    (clean : t.errors = []) : namespaceItem namespaceDecl s = .ok part t := by
  rw [namespaceRound_of_more (not_atEnd_of_round h)] at h
  obtain ⟨part', t', hitem, hpart⟩ := exists_of_bind (f := fun part => Pure.pure (some part)) h
  cases hpart
  change EStateM.tryCatch (namespaceItem namespaceDecl) _ s = _ at hitem
  unfold EStateM.tryCatch at hitem
  dsimp only at hitem
  cases hrun : namespaceItem namespaceDecl s with
  | ok part'' t'' =>
      rw [hrun] at hitem
      exact hitem
  | error e t'' =>
      rw [hrun] at hitem
      cases hitem
      obtain ⟨⟨j, -, hstands⟩, -⟩ := (Even.namespaceItem Even.namespaceDecl i s hs).of_error hrun
      exact absurd clean (invariant_errors.toStable.synchronize (hstands.errors_record e))

/-- An item that is read is what a round yields. -/
theorem namespaceRound_of_item (more : s.atEnd = false) (h : namespaceItem namespaceDecl s = .ok part t) :
    namespaceRound false s = .ok (some part) t := by
  have hitem : recovering .empty (namespaceItem namespaceDecl) s = .ok part t := by
    change EStateM.tryCatch (namespaceItem namespaceDecl) _ s = _
    unfold EStateM.tryCatch
    dsimp only
    rw [h]
  rw [namespaceRound_of_more more]
  exact bind_eq hitem _

/-! ### Clean states -/

/-- A state in front of the token number `i` in which nothing was reported and no
type was declared before. -/
structure Clean (source : SourceId) (all : List Token) (i : Nat) (s : ParserState) : Prop where
  stands : s.Stands all i
  source : s.source = source
  nextDecl : s.nextDecl = 0
  errors : s.errors = []

theorem invariant_unnumbered (source : SourceId) :
    Invariant (fun s => s.source = source ∧ s.nextDecl = 0) fun _ => True where
  pass _ h := h
  report _ h := h
  panicking _ _ h := h
  rewind h _ := h
  ahead _ _ := trivial

/-- Behind what declares no type the state is clean again, if nothing was reported. -/
theorem Clean.step {Q : Nat → α → Prop} {p : Parser α} {a : α} (h : Clean source all i s)
    (reads : Reads all i Q p) (keeps : Keeps (fun s => s.source = source ∧ s.nextDecl = 0) p)
    (hrun : p s = .ok a t) (clean : t.errors = []) :
    ∃ j, i ≤ j ∧ Clean source all j t ∧ Q j a := by
  obtain ⟨j, hij, hstands, hQ⟩ := (reads s h.stands).of_ok hrun
  obtain ⟨⟨hsource, hnext⟩, -⟩ := (keeps s ⟨h.source, h.nextDecl⟩).of_ok hrun
  exact ⟨j, hij, ⟨hstands, hsource, hnext, clean⟩, (hQ clean).2⟩

/-! ### Declarations -/

/-- Attributes and modifiers of a type do not count for how the type is read. -/
theorem typeDecl_head {head : MemberHead} {decl : TypeDecl} (h : typeDecl head s = .ok decl t)
    (head' : MemberHead) :
    ∃ span, typeDecl head' s =
      .ok { decl with attributes := head'.attributes, modifiers := head'.modifiers, span } t := by
  rw [typeDecl_recurs.eq] at h ⊢
  obtain ⟨id, s₁, hid, h⟩ := exists_of_bind h
  obtain ⟨kind, s₂, hkind, h⟩ := exists_of_bind h
  obtain ⟨name, s₃, hname, h⟩ := exists_of_bind h
  obtain ⟨params, s₄, hparams, h⟩ := exists_of_bind h
  obtain ⟨⟨⟩, s₅, hbases, h⟩ := exists_of_bind h
  obtain ⟨members, s₆, hmembers, h⟩ := exists_of_bind h
  cases h
  exact ⟨_, (bind_eq hid _).trans <| (bind_eq hkind _).trans <| (bind_eq hname _).trans <|
    (bind_eq hparams _).trans <| (bind_eq hbases _).trans <| (bind_eq hmembers _).trans rfl⟩

/-- Neither attributes nor modifiers stand before a keyword that starts a declaration. -/
theorem memberHead_start (start : startsDeclaration s.current.kind = true) :
    memberHead s = .ok ⟨[], .empty, s.current.span⟩ s := by
  unfold startsDeclaration at start
  split at start <;> rename_i hkind <;> first
    | exact absurd start Bool.false_ne_true
    | exact memberHead_eq (by simp [ParserState.check, hkind]) (by simp [isModifier, hkind])

/-- A type without attributes and modifiers is an item. -/
theorem namespaceItem_of_typeDecl {space : Parser NamespaceDecl} {decl : TypeDecl}
    (start : startsDeclaration s.current.kind = true) (notSpace : s.check .namespaceKeyword = false)
    (h : typeDecl ⟨[], .empty, s.current.span⟩ s = .ok decl t) :
    namespaceItem space s = .ok ⟨[], [], [.type decl]⟩ t := by
  have hother : isUsing s = false ∧ isGlobalAttribute s = false ∧ s.check .rightBrace = false ∧
      isTypeKeyword s = true := by
    unfold startsDeclaration at start
    split at start <;> rename_i hkind <;> first
      | exact absurd start Bool.false_ne_true
      | exact absurd hkind (of_decide_eq_false notSpace)
      | simp [isUsing, isGlobalAttribute, isTypeKeyword, ParserState.check, ParserState.checkWord, hkind]
  obtain ⟨husing, hglobal, hbrace, hkeyword⟩ := hother
  have htype : namespaceType s = .ok (some decl) t := by
    refine (bind_eq (memberHead_start start) _).trans ?_
    change (if isTypeKeyword s then some <$> typeDecl ⟨[], .empty, s.current.span⟩ else _ :
      Parser (Option TypeDecl)) s = _
    rw [hkeyword, if_pos rfl]
    exact bind_eq h _
  change (if isUsing s then _ else if isGlobalAttribute s then _ else
    if s.check .namespaceKeyword then _ else
    if s.check .rightBrace then _ else _ : Parser NamespaceBody) s = _
  rw [husing, hglobal, notSpace, hbrace]
  exact (bind_eq htype _).trans rfl

end Graft.Parser
