/-
Module: Graft.Proofs.Program.ReadBack
Purpose: What the texts of types that are meant are read back as.
Main exports: Registry.Shows, Registry.displayType_faithful

A type that is resolved is displayed with the full names of the definitions in it.  Its text is that of a
written type, so that one is read back, and what it is resolved to is decided by what the full names lead to.
-/
import Graft.Proofs.Lookup.Displayed
import Graft.Proofs.Parser.Names
import Graft.Proofs.Parser.TypeText
import Graft.Proofs.Program.Qualified

namespace Graft

/-! ### Types without unresolved names -/

namespace TypeRef

/-- The type is `inner?`. -/
def isNullable : TypeRef → Bool
  | nullable _ => true
  | _ => false

/-- The type is a type parameter. -/
def isTypeParam : TypeRef → Bool
  | typeParam _ => true
  | _ => false

/-- If the type is a name, the name stands for a definition. -/
def Resolved : TypeRef → Prop
  | named definition? _ _ => definition?.isSome = true
  | _ => True

theorem anyUnresolved_eq (types : List TypeRef) : anyUnresolved types = types.any hasUnresolved := by
  induction types with
  | nil => rfl
  | cons type rest ih => exact congrArg (type.hasUnresolved || ·) ih

theorem anyElementUnresolved_eq (elements : List (TupleElement TypeRef String)) :
    anyElementUnresolved elements = (elements.map (·.type)).any hasUnresolved := by
  induction elements with
  | nil => rfl
  | cons element rest ih => exact congrArg (element.type.hasUnresolved || ·) ih

/-- In a type without unresolved names every name stands for a definition. -/
theorem every_resolved {type : TypeRef} (h : type.hasUnresolved = false) : type.Every Resolved := by
  induction type using TypeRef.induct with
  | step type ih =>
      have hinner : type.Resolved ∧ ∀ part ∈ type.inner, part.hasUnresolved = false := by
        cases type with
        | keyword _ | typeParam _ => exact ⟨trivial, fun _ hpart => absurd hpart List.not_mem_nil⟩
        | named definition? _ args =>
            rw [hasUnresolved, anyUnresolved_eq, Bool.or_eq_false_iff, List.any_eq_false] at h
            exact ⟨by simpa [Resolved] using h.1, fun part hpart => Bool.eq_false_iff.2 (h.2 part hpart)⟩
        | array _ _ | nullable _ | pointer _ =>
            rw [hasUnresolved] at h
            exact ⟨trivial, fun part hpart => List.mem_singleton.1 hpart ▸ h⟩
        | tuple elements =>
            rw [hasUnresolved, anyElementUnresolved_eq, List.any_eq_false] at h
            exact ⟨trivial, fun part hpart => Bool.eq_false_iff.2 (h part hpart)⟩
      exact every_iff.2 ⟨hinner.1, fun part hpart => ih part hpart (hinner.2 part hpart)⟩

theorem definition?_unwritten (type : TypeRef) : type.unwritten.definition? = type.definition? := by
  cases type <;> rfl

/-- A property of all types in a type that is meant gives one of all types in the written type. -/
theorem every_toSyntax {r : Registry} {P : TypeRef → Prop} {Q : TypeSyntax → Prop}
    (h : ∀ type, P type → Q (type.toSyntax r)) {type : TypeRef} (every : type.Every P) :
    (type.toSyntax r).Every Q := by
  induction type using TypeRef.induct with
  | step type ih =>
      obtain ⟨htype, hinner⟩ := every_iff.1 every
      refine TypeSyntax.every_iff.2 ⟨h type htype, ?_⟩
      rw [inner_toSyntax]
      exact List.forall_mem_map.2 fun part hpart => ih part hpart (hinner part hpart)

end TypeRef

namespace Registry

/-! ### Types that their texts show -/

/-- The text of a type shows what the type is, given what the texts of the types directly in it show: a
definition has as many type parameters as it is given type arguments, and the types around it have none; no
name is a reserved word; and no question mark comes directly behind another one. -/
def Shows (r : Registry) : TypeRef → Prop
  | .named (some key) _ args => ∃ e ∈ r.get? key, e.arity = args.length ∧
      (∀ outer ∈ (r.chain key).tail, outer.arity = 0) ∧ ∀ segment ∈ e.qualified.segments,
      Keyword.kind? segment = none
  | .nullable inner => inner.isNullable = false
  | .tuple elements => ∀ element ∈ elements, ∀ name ∈ element.name?, Keyword.kind? name = none
  | .keyword _ | .typeParam _ | .named none _ _ | .array _ _ | .pointer _ => True

instance (r : Registry) : DecidablePred r.Shows
  | .named (some key) _ args => inferInstanceAs (Decidable (∃ e ∈ r.get? key, e.arity = args.length ∧
      (∀ outer ∈ (r.chain key).tail, outer.arity = 0) ∧ ∀ segment ∈ e.qualified.segments,
        Keyword.kind? segment = none))
  | .nullable inner => inferInstanceAs (Decidable (inner.isNullable = false))
  | .tuple elements => inferInstanceAs (Decidable (∀ element ∈ elements, ∀ name ∈ element.name?,
      Keyword.kind? name = none))
  | .keyword _ | .typeParam _ | .named none _ _ | .array _ _ | .pointer _ => inferInstanceAs (Decidable True)

namespace Faithful

variable {r : Registry} {sites : List DeclSite} (h : r.Faithful sites)
include h

/-- What lookups see of a full name with type arguments: the namespace around the outermost type, and the
types from there on. -/
theorem sign_typeSegments {key : TypeKey} {e top : TypeEntry} (he : r.get? key = some e)
    (htop : r.outermost? key = some top) (plain : ∀ outer ∈ (r.chain key).tail, outer.arity = 0)
    {args : List TypeSyntax} (harity : e.arity = args.length) :
    (e.qualified.typeSegments args).map TypeSegment.sign = top.space.map (·, 0) ++ r.nesting key := by
  obtain ⟨top', htop', hsegments⟩ := h.qualified_segments he
  obtain rfl := Option.some.inj (htop'.symm.trans htop)
  -- the types around the type come without type parameters
  obtain ⟨outer, houter⟩ : ∃ outer, r.chain key = e :: outer := ⟨_, h.indexed.chain_eq he⟩
  rw [houter, List.tail_cons] at plain
  have hnesting : r.nesting key = (outer.map TypeEntry.name).reverse.map (·, 0) ++ [(e.name, e.arity)] := by
    rw [nesting, houter, List.map_cons, List.reverse_cons, List.map_reverse, List.map_map]
    refine congrArg (fun list => List.reverse list ++ _) (List.map_congr_left fun f hf => ?_)
    rw [plain f hf]
    rfl
  have hpath : e.qualified.path = top'.space ++ (outer.map TypeEntry.name).reverse := by
    rw [hnesting, List.map_append, List.map_map, QualifiedName.segments, ← List.append_assoc] at hsegments
    refine (List.append_inj_left' hsegments rfl).trans (congrArg (top'.space ++ ·) ?_)
    exact List.map_id _
  rw [QualifiedName.typeSegments, List.map_append, List.map_map, hpath, hnesting, List.map_append,
    List.append_assoc, harity]
  rfl

/-- A type that its text shows is legible. -/
theorem legible_toSyntax {type : TypeRef} (formed : type.Formed Text.IsWord) (resolved : type.Resolved)
    (concrete : type.isTypeParam = false) (shown : r.Shows type) : (type.toSyntax r).Legible := by
  cases type with
  | typeParam name => cases concrete
  | keyword name =>
      rw [TypeRef.toSyntax]
      exact ⟨formed, fun _ _ heq => by cases heq⟩
  | named definition? written args =>
      cases definition? with
      | none => cases resolved
      | some key =>
          obtain ⟨e, he, -, -, unreserved⟩ := shown
          have hname : r.headName (some key) written = e.qualified := by
            rw [headName, Option.bind_some, he]
          rw [TypeRef.toSyntax, hname]
          refine ⟨⟨by simp [QualifiedName.typeSegments], fun _ hnone => (by cases hnone), ?_⟩,
            fun _ _ heq => by cases heq⟩
          intro segment hsegment
          have hmem : segment.name.name ∈ e.qualified.segments := by
            rcases List.mem_append.1 hsegment with hpath | hlast
            · obtain ⟨name, hname, rfl⟩ := List.mem_map.1 hpath
              exact List.mem_append_left _ hname
            · rw [List.mem_singleton.1 hlast]
              exact List.mem_append_right _ (List.mem_singleton_self _)
          exact ⟨h.word_of_mem_segments he _ hmem, unreserved _ hmem⟩
  | array element rank =>
      rw [TypeRef.toSyntax]
      exact ⟨formed, fun _ _ heq => by cases heq⟩
  | pointer inner =>
      rw [TypeRef.toSyntax]
      exact ⟨formed, fun _ _ heq => by cases heq⟩
  | nullable inner =>
      rw [TypeRef.toSyntax]
      refine ⟨trivial, fun inner' _ heq => ?_⟩
      obtain rfl : inner.toSyntax r = inner' := (TypeSyntax.nullable.inj heq).1
      cases inner with
      | nullable _ => cases shown
      | keyword _ | typeParam _ | named _ _ _ | array _ _ | pointer _ | tuple _ =>
          rw [TypeRef.toSyntax]
          rfl
  | tuple elements =>
      rw [TypeRef.toSyntax, TypeRef.toSyntaxElements_eq]
      refine ⟨⟨fun hnil => formed.1 (List.map_eq_nil_iff.1 hnil), ?_⟩, fun _ _ heq => by cases heq⟩
      refine List.forall_mem_map.2 fun element helement ident hident => ?_
      obtain ⟨type, name?⟩ := element
      rw [TypeRef.toSyntaxElement] at hident
      obtain ⟨name, hname, rfl⟩ := Option.map_eq_some_iff.1 hident
      exact ⟨formed.2 _ helement name hname, shown _ helement name hname⟩

/-- The full name in the text of a type leads to the definition exactly if the definition is not hidden. -/
theorem found_iff {type : TypeRef} (resolved : type.Resolved) (concrete : type.isTypeParam = false)
    (shown : r.Shows type) : type.Found r ↔ ∀ key ∈ type.definition?, ¬r.Hidden key := by
  cases type with
  | typeParam name => cases concrete
  | keyword _ | array _ _ | nullable _ | pointer _ | tuple _ => simp [TypeRef.Found, TypeRef.definition?]
  | named definition? written args =>
      cases definition? with
      | none => cases resolved
      | some key =>
          obtain ⟨e, he, harity, plain, -⟩ := shown
          obtain ⟨top, htop, -⟩ := h.qualified_segments he
          have hname : r.headName (some key) written = e.qualified := by
            rw [headName, Option.bind_some, he]
          have hlength : e.arity = (args.map (TypeRef.toSyntax r)).length := by rw [harity, List.length_map]
          have hsign := h.sign_typeSegments he htop plain hlength
          rw [TypeRef.Found, hname, h.inSpace?_root_iff he htop hsign]
          simp [TypeRef.definition?]

end Faithful

/-- The text of a type that is resolved is read back as a type. -/
theorem displayType_faithful (trees : List SourceTree)
    (hread : ∀ t ∈ trees, ∃ id d, SourceTree.parse id d = .ok t) (distinct : ∀ s ∈ trees.flatMap (·.sites),
      ∀ u ∈ trees.flatMap (·.sites), s.key = u.key → s.identity = u.identity)
    (r : Registry) (completed : r.Completed trees) (s : Scope) (t : TypeSyntax)
    (formed : t.Every (TypeSyntax.Formed Text.IsWord))
    (resolved : (Lookup.resolve r s t).hasUnresolved = false)
    (concrete : (Lookup.resolve r s t).Every (·.isTypeParam = false))
    (shown : (Lookup.resolve r s t).Every r.Shows) (source : SourceId) :
    ∃ u p, Parser.type (.ofText source (r.displayType (Lookup.resolve r s t))) = .ok u p ∧ p.atEnd = true ∧
      p.errors = [] ∧
      ((Lookup.resolve r .outermost u).unwritten = (Lookup.resolve r s t).unwritten ↔
        ∀ part ∈ (Lookup.resolve r s t).parts, ∀ key ∈ part.definition?, ¬r.Hidden key) := by
  have h := completed.faithful hread distinct
  have formed' := Lookup.every_resolve r s (fun _ => Lookup.formed_resolve r s) formed
  have resolved' := TypeRef.every_resolved resolved
  generalize Lookup.resolve r s t = type at *
  have every : type.Every fun part => part.Formed Text.IsWord ∧ part.Resolved ∧ part.isTypeParam = false ∧
      r.Shows part := fun part hpart =>
    ⟨formed' part hpart, resolved' part hpart, concrete part hpart, shown part hpart⟩
  have legible : (type.toSyntax r).Every TypeSyntax.Legible :=
    TypeRef.every_toSyntax (fun _ hpart => h.legible_toSyntax hpart.1 hpart.2.1 hpart.2.2.1 hpart.2.2.2)
      every
  obtain ⟨u, p, hu, hend, herrors, hsame⟩ := TypeSyntax.type_display legible source
  refine ⟨u, p, by rw [displayType_eq, hu], hend, herrors, ?_⟩
  rw [← Lookup.resolve_unplaced u, ← hsame, Lookup.resolve_unplaced, TypeRef.unwritten_resolve_toSyntax_iff]
  exact forall₂_congr fun part hpart =>
    h.found_iff (every part hpart).2.1 (every part hpart).2.2.1 (every part hpart).2.2.2

/-! ### Sample types -/

theorem not_hidden_of_entries {r : Registry} {key : TypeKey} (nodup : r.types.keys.Nodup)
    (h : ∀ entry ∈ r.types.entries, entry.2.container? = none → entry.2.arity = 0 → ∀ top ∈ r.outermost? key,
      ¬entry.2.qualified.segments <+: top.space) : ¬r.Hidden key := by
  rintro ⟨top, htop, other, e, he, hnone, harity, hprefix⟩
  exact h (other, e) ((Assoc.get?_eq_some_iff nodup).1 he) hnone harity top htop hprefix

/-- What a type that is read from a text is displayed as in a scope in the types that another text declares;
and whether these can be told apart, and whether the type is resolved to one that its text shows and that
holds no hidden type. -/
def displayedIn? (text : String) (s : Scope) (type : String) : Option (Bool × String) :=
  match SourceTree.parse ⟨0⟩ ⟨"a.cs", text, .source⟩, Parser.type (.ofText ⟨1⟩ type) with
  | .ok tree, .ok t _ =>
      let r := (Registration.ofTrees [tree]).registry
      let ref := Lookup.resolve r s t
      some (decide ((∀ s ∈ tree.sites, ∀ u ∈ tree.sites, s.key = u.key → s.identity = u.identity) ∧
        ref.hasUnresolved = false ∧ (∀ part ∈ ref.parts, part.isTypeParam = false) ∧
        (∀ part ∈ ref.parts, r.Shows part) ∧
        ∀ part ∈ ref.parts, ∀ key ∈ part.definition?, ∀ entry ∈ r.types.entries, entry.2.container? = none →
          entry.2.arity = 0 → ∀ top ∈ r.outermost? key, ¬entry.2.qualified.segments <+: top.space),
        r.displayType ref)
  | _, _ => none

theorem of_displayedIn?_eq_some {text type display : String} {s : Scope}
    (h : displayedIn? text s type = some (true, display)) :
    ∃ tree t p, SourceTree.parse ⟨0⟩ ⟨"a.cs", text, .source⟩ = .ok tree ∧
      Parser.type (.ofText ⟨1⟩ type) = .ok t p ∧
      (∀ s ∈ tree.sites, ∀ u ∈ tree.sites, s.key = u.key → s.identity = u.identity) ∧
      let r := (Registration.ofTrees [tree]).registry
      let ref := Lookup.resolve r s t
      ref.hasUnresolved = false ∧ ref.Every (·.isTypeParam = false) ∧ ref.Every r.Shows ∧
        (∀ part ∈ ref.parts, ∀ key ∈ part.definition?, ¬r.Hidden key) ∧ r.displayType ref = display := by
  unfold displayedIn? at h
  split at h
  · rename_i tree t p hparse htype
    obtain ⟨hholds, hdisplay⟩ := Prod.mk.inj (Option.some.inj h)
    obtain ⟨distinct, resolved, concrete, shown, plain⟩ := of_decide_eq_true hholds
    exact ⟨tree, t, p, hparse, htype, distinct, resolved, concrete, shown, fun part hpart key hkey =>
      not_hidden_of_entries (Registration.indexed_ofTrees [tree]).nodup_keys (plain part hpart key hkey),
        hdisplay⟩
  · cases h

/-- The scope in the first namespace of a text, with aliases. -/
def inFirstSpace (aliases : Assoc String AliasTarget) : Scope := ⟨[], [⟨1, [], [], aliases⟩, .plain 0]⟩

/-- A generic class beside a class that holds another one. -/
def neighbours : String := "namespace N\x7bclass A<T>\x7b\x7dclass B\x7bclass C\x7b\x7d\x7d\x7d"

/-- A tuple of an array and a pointer is read back from its text. -/
theorem displayType_faithful_neighbours :
    ∃ tree t p, SourceTree.parse ⟨0⟩ ⟨"a.cs", neighbours, .source⟩ = .ok tree ∧
      Parser.type (.ofText ⟨1⟩ "(A<B.C[,]> x, int*)?") = .ok t p ∧
      let r := (Registration.ofTrees [tree]).registry
      let ref := Lookup.resolve r (inFirstSpace .empty) t
      ref.hasUnresolved = false ∧ r.displayType ref = "(N.A<N.B.C[,]> x, int*)?" ∧
        ∃ u q, Parser.type (.ofText ⟨2⟩ "(N.A<N.B.C[,]> x, int*)?") = .ok u q ∧ q.atEnd = true ∧
          q.errors = [] ∧ (Lookup.resolve r .outermost u).unwritten = ref.unwritten := by
  obtain ⟨tree, t, p, hparse, htype, distinct, resolved, concrete, shown, plain, hdisplay⟩ :=
    of_displayedIn?_eq_some (show displayedIn? neighbours (inFirstSpace .empty) "(A<B.C[,]> x, int*)?" =
      some (true, "(N.A<N.B.C[,]> x, int*)?") by decide +kernel)
  have hsites : [tree].flatMap (·.sites) = tree.sites := List.append_nil _
  have hread : ∀ t ∈ [tree], ∃ id d, SourceTree.parse id d = .ok t := fun _ ht =>
    ⟨_, _, List.mem_singleton.1 ht ▸ hparse⟩
  obtain ⟨u, q, hu, hend, herrors, hiff⟩ := displayType_faithful [tree] hread (hsites ▸ distinct) _
    (.registered (Registration.reached_ofTrees hread (List.pairwise_singleton _ _))) (inFirstSpace .empty) t
    (TypeSyntax.formed_of_type htype) resolved concrete shown ⟨2⟩
  rw [hdisplay] at hu
  exact ⟨tree, t, p, hparse, htype, resolved, hdisplay, u, q, hu, hend, herrors, hiff.2 plain⟩

/-- A type that is read from a text, and resolved in a scope in the types that another text declares, has
neither unresolved names nor type parameters, and is not what is read back from its text. -/
def ReadBackFails (text : String) (s : Scope) (type : String) : Prop :=
  ∃ tree t p, SourceTree.parse ⟨0⟩ ⟨"a.cs", text, .source⟩ = .ok tree ∧
    Parser.type (.ofText ⟨1⟩ type) = .ok t p ∧
    let r := (Registration.ofTrees [tree]).registry
    let ref := Lookup.resolve r s t
    ref.hasUnresolved = false ∧ ref.Every (·.isTypeParam = false) ∧
      ∀ u q, Parser.type (.ofText ⟨2⟩ (r.displayType ref)) = .ok u q → q.atEnd = true →
        (Lookup.resolve r .outermost u).unwritten ≠ ref.unwritten

/-- Whether what is read back from the text of a type leaves something unread, or has another definition. -/
def failsIn (text : String) (s : Scope) (type : String) : Bool :=
  match SourceTree.parse ⟨0⟩ ⟨"a.cs", text, .source⟩, Parser.type (.ofText ⟨1⟩ type) with
  | .ok tree, .ok t _ =>
      let r := (Registration.ofTrees [tree]).registry
      let ref := Lookup.resolve r s t
      !ref.hasUnresolved && !ref.parts.any (·.isTypeParam) &&
        match Parser.type (.ofText ⟨2⟩ (r.displayType ref)) with
        | .ok u q => !q.atEnd || (Lookup.resolve r .outermost u).definition? != ref.definition?
        | .error _ _ => true
  | _, _ => false

theorem readBackFails_of_failsIn {text type : String} {s : Scope} (h : failsIn text s type = true) :
    ReadBackFails text s type := by
  unfold failsIn at h
  split at h
  · rename_i tree t p hparse htype
    simp only [Bool.and_eq_true, Bool.not_eq_true', List.any_eq_false] at h
    obtain ⟨⟨resolved, concrete⟩, hagain⟩ := h
    refine ⟨tree, t, p, hparse, htype, resolved,
      fun part hpart => Bool.eq_false_iff.2 (concrete part hpart), ?_⟩
    intro u q hu hend heq
    rw [hu] at hagain
    have hsame := congrArg TypeRef.definition? heq
    rw [TypeRef.definition?_unwritten, TypeRef.definition?_unwritten] at hsame
    simp [hend, hsame] at hagain
  · cases h

/-- A class is hidden by one with the name of its namespace.  Besides, it does not come back from the text
where a type around it is generic, where an alias leaves its type arguments out, where its name is reserved,
and where two question marks come together. -/
theorem displayType_unfaithful :
    ReadBackFails "class N\x7b\x7dnamespace N\x7bclass A\x7b\x7d\x7d" (inFirstSpace .empty) "A" ∧
      ReadBackFails "namespace N\x7bclass A<T>\x7bclass B\x7b\x7d\x7d\x7d" (inFirstSpace .empty) "A<int>.B" ∧
      ReadBackFails "namespace N\x7bclass A<T>\x7b\x7d\x7d"
        (inFirstSpace (.insert .empty "L" (.type (.named (some (.ofName "N.A`1")) "A" [.keyword "int"]))))
        "L" ∧
      ReadBackFails "namespace N\x7bclass @int\x7b\x7d\x7d" (inFirstSpace .empty) "@int" ∧
      ReadBackFails "namespace N\x7bclass A\x7b\x7d\x7d" (inFirstSpace .empty) "A? ?" :=
  ⟨readBackFails_of_failsIn (by decide +kernel), readBackFails_of_failsIn (by decide +kernel),
    readBackFails_of_failsIn (by decide +kernel), readBackFails_of_failsIn (by decide +kernel),
    readBackFails_of_failsIn (by decide +kernel)⟩

end Registry

end Graft
