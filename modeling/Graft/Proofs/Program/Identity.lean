/-
Module: Graft.Proofs.Program.Identity
Purpose: Which declarations are taken for parts of one type.
Main statements: DeclSite.identity_inj, Registration.declared_eq_iff, Registration.declared_mixed

A declaration is known by its full name, the segments of which are joined by points.  Names hold
neither points nor the mark before a number of type parameters, so the text can be taken apart into
its segments.  It does not say which of the segments are namespaces and which are types around the
declaration.
-/
import Mathlib.Data.List.Nodup
import Graft.Proofs.Program.Complete

namespace Graft

/-! ### Names as text -/

namespace Text.IsWord

variable {name : String}

theorem not_mem {c : Char} (word : IsWord name) (hstart : isIdentStart c = false)
    (hcontinue : isIdentContinue c = false) : c ∉ name.toList := by
  obtain ⟨first, rest, htext, hfirst, hrest⟩ := word
  rw [htext]
  intro hc
  rcases List.mem_cons.1 hc with rfl | hc
  · rw [hstart] at hfirst
    cases hfirst
  · have := hrest c hc
    rw [hcontinue] at this
    cases this

theorem point_not_mem (word : IsWord name) : '.' ∉ name.toList :=
  word.not_mem (by decide +kernel) (by decide +kernel)

theorem tick_not_mem (word : IsWord name) : '`' ∉ name.toList :=
  word.not_mem (by decide +kernel) (by decide +kernel)

end Text.IsWord

namespace MetadataName

theorem toList_segment (name : String) (arity : Nat) : (segment name arity).toList =
    name.toList ++ if arity = 0 then [] else '`' :: Nat.toDigits 10 arity := by
  unfold segment
  split
  · simp
  · simp [String.toList_append, toString]

/-- A segment has no points. -/
theorem point_not_mem_segment {name : String} (word : Text.IsWord name) (arity : Nat) :
    '.' ∉ (segment name arity).toList := by
  rw [toList_segment]
  intro hpoint
  rcases List.mem_append.1 hpoint with hpoint | hpoint
  · exact word.point_not_mem hpoint
  · split at hpoint
    · cases hpoint
    · rcases List.mem_cons.1 hpoint with hpoint | hpoint
      · exact absurd hpoint (by decide)
      · have hdigit := Nat.isDigit_of_mem_toDigits (by decide) (by decide) hpoint
        exact absurd hdigit (by decide)

/-- The name in a segment is what stands before the mark. -/
theorem takeWhile_segment {name : String} (word : Text.IsWord name) (arity : Nat) :
    (segment name arity).toList.takeWhile (· ≠ '`') = name.toList := by
  have hname : ∀ c ∈ name.toList, decide (c ≠ '`') = true := fun c hc =>
    decide_eq_true fun h => word.tick_not_mem (h ▸ hc)
  rw [toList_segment, List.takeWhile_append_of_pos hname]
  split <;> simp

/-- A segment says what the name and the number of type parameters are. -/
theorem segment_inj {name other : String} (word : Text.IsWord name) (word' : Text.IsWord other)
    {arity arity' : Nat} (h : segment name arity = segment other arity') :
    name = other ∧ arity = arity' := by
  have hname : name = other := by
    have htake := congrArg (fun text => text.toList.takeWhile (· ≠ '`')) h
    simp only [takeWhile_segment word, takeWhile_segment word'] at htake
    exact String.toList_inj.1 htake
  subst hname
  have htail := congrArg String.toList h
  rw [toList_segment, toList_segment] at htail
  have htail := List.append_cancel_left htail
  refine ⟨rfl, ?_⟩
  by_cases hzero : arity = 0
  · by_cases hzero' : arity' = 0
    · rw [hzero, hzero']
    · rw [if_pos hzero, if_neg hzero'] at htail
      cases htail
  · by_cases hzero' : arity' = 0
    · rw [if_neg hzero, if_pos hzero'] at htail
      cases htail
    · rw [if_neg hzero, if_neg hzero', List.cons.injEq] at htail
      simpa using congrArg (Nat.ofDigitChars 10 · 0) htail.2

/-- Segments of words can be told from one another. -/
theorem map_segment_inj {names others : List (String × Nat)}
    (words : ∀ segment ∈ names, Text.IsWord segment.1)
    (words' : ∀ segment ∈ others, Text.IsWord segment.1)
    (h : names.map (fun n => segment n.1 n.2) = others.map fun n => segment n.1 n.2) :
    names = others := by
  induction names generalizing others with
  | nil => exact (List.map_eq_nil_iff.1 h.symm).symm
  | cons first rest ih =>
      cases others with
      | nil => cases h
      | cons first' rest' =>
          rw [List.map_cons, List.map_cons, List.cons.injEq] at h
          obtain ⟨hname, harity⟩ := segment_inj (words first List.mem_cons_self)
            (words' first' List.mem_cons_self) h.1
          rw [Prod.ext hname harity, ih (fun n hn => words n (List.mem_cons_of_mem _ hn))
            (fun n hn => words' n (List.mem_cons_of_mem _ hn)) h.2]

/-- Segments joined by points can be taken apart. -/
theorem joined_inj {names others : List (String × Nat)}
    (words : ∀ segment ∈ names, Text.IsWord segment.1)
    (words' : ∀ segment ∈ others, Text.IsWord segment.1) (hne : names ≠ []) (hne' : others ≠ [])
    (h : ".".intercalate (names.map fun n => segment n.1 n.2) =
      ".".intercalate (others.map fun n => segment n.1 n.2)) : names = others := by
  have hpoints : ∀ list : List (String × Nat), (∀ n ∈ list, Text.IsWord n.1) →
      ∀ text ∈ (list.map fun n => segment n.1 n.2).map String.toList, '.' ∉ text := by
    intro list hwords text htext
    rw [List.map_map] at htext
    obtain ⟨n, hn, rfl⟩ := List.mem_map.1 htext
    exact point_not_mem_segment (hwords n hn) n.2
  have hsplit := congrArg (fun text : String => text.toList.splitOn '.') h
  have hpoint : ".".toList = ['.'] := rfl
  simp only [String.toList_intercalate, hpoint] at hsplit
  rw [List.splitOn_intercalate '.' (hpoints names words) (by simp [hne]),
    List.splitOn_intercalate '.' (hpoints others words') (by simp [hne'])] at hsplit
  exact map_segment_inj words words' ((List.map_inj_right fun a b => String.toList_inj.1).1 hsplit)

end MetadataName

/-! ### Full names -/

namespace DeclSite

/-- The segments of the full name of the declared type with their numbers of type parameters: the
namespace, the types around the declaration, and its own name. -/
def fullName (s : DeclSite) : List (String × Nat) := s.path.map (·, 0) ++ s.chain

/-- The names in the full name are words. -/
theorem Named.fullName {s : DeclSite} (named : s.Named fun i => Text.IsWord i.name) :
    ∀ segment ∈ s.fullName, Text.IsWord segment.1 := by
  intro segment hsegment
  rcases List.mem_append.1 hsegment with hsegment | hsegment
  · obtain ⟨name, hname, rfl⟩ := List.mem_map.1 hsegment
    obtain ⟨space, hspace, hname⟩ := List.mem_flatMap.1 hname
    obtain ⟨i, hi, rfl⟩ := List.mem_map.1 hname
    exact named.spaces space hspace i hi
  · obtain ⟨d, hd, rfl⟩ := List.mem_map.1 hsegment
    rcases List.mem_append.1 hd with hd | hd
    · exact named.containers d hd
    · rw [List.mem_singleton.1 hd]
      exact named.decl

theorem fullName_ne_nil (s : DeclSite) : s.fullName ≠ [] := by
  simp [fullName, chain]

/-- The identity of a type is its full name as a text. -/
theorem identity_eq {s : DeclSite} (named : s.Named fun i => Text.IsWord i.name) :
    s.identity = ".".intercalate (s.fullName.map fun segment =>
      MetadataName.segment segment.1 segment.2) := by
  have hpath : ∀ name ∈ s.path, name ≠ "" := fun name hname =>
    (named.fullName (name, 0) (List.mem_append_left _ (List.mem_map_of_mem hname))).ne_empty
  have htypes : ∀ d ∈ s.containers ++ [s.decl], d.name.name ≠ "" := fun d hd =>
    (named.fullName (d.name.name, d.arity) (List.mem_append_right _ (List.mem_map.2 ⟨d, hd, rfl⟩))).ne_empty
  have hspaces : (s.path.map (·, 0)).map (fun n => MetadataName.segment n.1 n.2) = s.path := by
    rw [List.map_map]
    exact List.map_id _
  rw [identity, identityIn_eq_intercalate hpath htypes, fullName, chain]
  conv => rhs; rw [List.map_append, hspaces, List.map_map]
  rfl

/-- Types with one identity have one full name. -/
theorem identity_inj {s t : DeclSite} (named : s.Named fun i => Text.IsWord i.name)
    (named' : t.Named fun i => Text.IsWord i.name) (h : s.identity = t.identity) :
    s.fullName = t.fullName := by
  rw [identity_eq named, identity_eq named'] at h
  exact MetadataName.joined_inj named.fullName named'.fullName s.fullName_ne_nil t.fullName_ne_nil h

/-- With as many types around them, declarations with one full name declare the same type. -/
theorem sameType_of_fullName {s t : DeclSite} (h : s.fullName = t.fullName)
    (hdepth : s.containers.length = t.containers.length) : s.SameType t := by
  have hlength : s.chain.length = t.chain.length := by simp [chain, hdepth]
  obtain ⟨hpath, hchain⟩ := List.append_inj' h hlength
  exact ⟨(List.map_inj_right fun _ _ h => (Prod.mk.inj h).1).1 hpath, hchain⟩

/-- One full name ends in one name with one number of type parameters. -/
theorem decl_eq_of_fullName {s t : DeclSite} (h : s.fullName = t.fullName) :
    s.decl.name.name = t.decl.name.name ∧ s.decl.arity = t.decl.arity := by
  rw [fullName, fullName, chain_eq, chain_eq, ← List.append_assoc, ← List.append_assoc] at h
  have hlast := List.singleton_inj.1 (List.append_inj' h rfl).2
  exact Prod.mk.inj hlast

end DeclSite

namespace Registration

variable {sites : List DeclSite} {g : Registration}

/-! ### Registered declarations -/

/-- Every registered declaration is one of some places, and has its own key. -/
def DeclaredFrom (sites : List DeclSite) (g : Registration) : Prop :=
  ∀ id key, g.declared.get? id = some key → ∃ s ∈ sites, s.decl.id = id ∧ s.key = key

theorem DeclaredFrom.add (h : g.DeclaredFrom sites) (origin : Origin) {s : DeclSite}
    (hs : s ∈ sites) : (g.add origin s).DeclaredFrom sites := by
  intro id key hkey
  by_cases hid : id = s.decl.id
  · unfold Registration.add at hkey
    split at hkey
    · split at hkey
      · rw [Assoc.get?_insert, if_pos hid] at hkey
        exact ⟨s, hs, hid.symm, Option.some.inj hkey⟩
      · exact h id key hkey
    · exact h id key hkey
  · rw [declared_add g origin s hid] at hkey
    exact h id key hkey

/-- Only declarations of the trees are registered, each with its own key. -/
theorem declaredFrom_ofTrees (trees : List SourceTree) :
    (ofTrees trees).DeclaredFrom (trees.flatMap (·.sites)) :=
  induction_ofTrees (fun _ _ h => by cases h) (fun _ _ hg => hg) fun t ht _ hs _ hg =>
    hg.add t.origin (List.mem_flatMap.2 ⟨t, ht, hs⟩)

variable {trees : List SourceTree}

/-- The declarations in trees with different numbers have different numbers. -/
theorem nodup_numbers (hread : ∀ t ∈ trees, ∃ id d, SourceTree.parse id d = .ok t)
    (hids : (trees.map (·.id)).Nodup) : ((trees.flatMap (·.sites)).map (·.decl.id)).Nodup := by
  have hparse : ∀ t ∈ trees, ∃ d, SourceTree.parse t.id d = .ok t := by
    intro t ht
    obtain ⟨id, d, h⟩ := hread t ht
    exact ⟨d, (SourceTree.ids_sites h).1 ▸ h⟩
  rw [List.map_flatMap]
  exact Compilation.nodup_ids hparse hids

/-- With different numbers, a registered declaration has its own key. -/
theorem key_of_declared (hread : ∀ t ∈ trees, ∃ id d, SourceTree.parse id d = .ok t)
    (hids : (trees.map (·.id)).Nodup) {s : DeclSite} (hs : s ∈ trees.flatMap (·.sites)) {key : TypeKey}
    (hkey : (ofTrees trees).declared.get? s.decl.id = some key) : s.key = key := by
  obtain ⟨t, ht, hid, rfl⟩ := declaredFrom_ofTrees trees s.decl.id key hkey
  rw [List.inj_on_of_nodup_map (nodup_numbers hread hids) ht hs hid]

/-- Of trees that were read without errors and have different numbers, two registered declarations
are parts of one type exactly if they have one full name, where no two full names have one digest.
They then have one name and one number of type parameters, and if as many types are around both, they
stand in one namespace and in types of the same names and numbers of type parameters. -/
theorem declared_eq_iff (trees : List SourceTree)
    (hread : ∀ t ∈ trees, ∃ id d, SourceTree.parse id d = .ok t) (hids : (trees.map (·.id)).Nodup)
    (s t : DeclSite) (hs : s ∈ trees.flatMap (·.sites)) (ht : t ∈ trees.flatMap (·.sites))
    (key other : TypeKey) (hkey : (ofTrees trees).declared.get? s.decl.id = some key)
    (hother : (ofTrees trees).declared.get? t.decl.id = some other)
    (hdigest : TypeKey.ofName s.identity = TypeKey.ofName t.identity → s.identity = t.identity) :
    (key = other ↔ s.fullName = t.fullName) ∧
    (key = other → s.decl.name.name = t.decl.name.name ∧ s.decl.arity = t.decl.arity ∧
      (s.containers.length = t.containers.length → s.SameType t)) := by
  have named : ∀ u ∈ trees.flatMap (·.sites), u.Named fun i => Text.IsWord i.name := by
    intro u hu
    obtain ⟨tree, htree, hu⟩ := List.mem_flatMap.1 hu
    obtain ⟨id, d, hparse⟩ := hread tree htree
    exact SourceTree.named_of_mem_sites hparse u hu
  have hiff : key = other ↔ s.fullName = t.fullName := by
    rw [← key_of_declared hread hids hs hkey, ← key_of_declared hread hids ht hother]
    refine ⟨fun h => DeclSite.identity_inj (named s hs) (named t ht) (hdigest h), fun h => ?_⟩
    rw [DeclSite.key, DeclSite.key, DeclSite.identity_eq (named s hs),
      DeclSite.identity_eq (named t ht), h]
  refine ⟨hiff, fun h => ?_⟩
  obtain ⟨hname, harity⟩ := DeclSite.decl_eq_of_fullName (hiff.1 h)
  exact ⟨hname, harity, DeclSite.sameType_of_fullName (hiff.1 h)⟩

/-! ### Sample declarations -/

/-- What a registration makes of a declaration. -/
structure Placed where
  path : List String
  chain : List (String × Nat)
  identity : String
  key? : Option TypeKey
deriving DecidableEq

/-- What the registration of a tree makes of a declaration in it. -/
def placedIn (t : SourceTree) (s : DeclSite) : Placed :=
  ⟨s.path, s.chain, s.identity, (ofTrees [t]).declared.get? s.decl.id⟩

/-- What becomes of the declarations in a text. -/
def placedParts? (text : String) : Option (List Placed) :=
  (SourceTree.parse ⟨0⟩ ⟨"a.cs", text, .source⟩).toOption.map fun t => t.sites.map (placedIn t)

theorem of_placedParts?_eq_some {text : String} {parts : List Placed}
    (h : placedParts? text = some parts) :
    ∃ t, SourceTree.parse ⟨0⟩ ⟨"a.cs", text, .source⟩ = .ok t ∧ t.sites.map (placedIn t) = parts := by
  unfold placedParts? at h
  cases hparse : SourceTree.parse ⟨0⟩ ⟨"a.cs", text, .source⟩ with
  | error e =>
      rw [hparse] at h
      cases h
  | ok t =>
      rw [hparse] at h
      exact ⟨t, rfl, Option.some.inj h⟩

/-- Two parts of a generic class. -/
def genericParts : String :=
  "namespace N\x7bpartial class O<T>\x7b\x7d\x7dnamespace N\x7bpartial class O<U>\x7b\x7d\x7d"

/-- The parts are registered as one type, since they have one full name. -/
theorem declared_eq_iff_genericParts :
    ∃ tree s t key, SourceTree.parse ⟨0⟩ ⟨"a.cs", genericParts, .source⟩ = .ok tree ∧
      tree.sites = [s, t] ∧ (ofTrees [tree]).declared.get? s.decl.id = some key ∧
      (ofTrees [tree]).declared.get? t.decl.id = some key ∧ s.fullName = t.fullName ∧
      s.SameType t := by
  have hrun : placedParts? genericParts = some
      [⟨["N"], [("O", 1)], "N.O`1", some (.ofName "N.O`1")⟩,
       ⟨["N"], [("O", 1)], "N.O`1", some (.ofName "N.O`1")⟩] := by decide +kernel
  obtain ⟨tree, hparse, hsites⟩ := of_placedParts?_eq_some hrun
  obtain ⟨s, rest, htree, hs, hsites⟩ := List.map_eq_cons_iff.1 hsites
  obtain ⟨t, rest', rfl, ht, hsites⟩ := List.map_eq_cons_iff.1 hsites
  obtain rfl := List.map_eq_nil_iff.1 hsites
  simp only [placedIn, Placed.mk.injEq] at hs ht
  have hmem : ∀ u ∈ [s, t], u ∈ [tree].flatMap (·.sites) := fun u hu =>
    List.mem_flatMap.2 ⟨tree, List.mem_singleton_self tree, htree ▸ hu⟩
  have hread : ∀ t ∈ [tree], ∃ id d, SourceTree.parse id d = .ok t := by
    intro u hu
    rw [List.mem_singleton.1 hu]
    exact ⟨_, _, hparse⟩
  obtain ⟨hiff, hsame⟩ := declared_eq_iff [tree] hread (List.pairwise_singleton _ _) s t
    (hmem s (by simp)) (hmem t (by simp)) (.ofName "N.O`1") (.ofName "N.O`1") hs.2.2.2 ht.2.2.2
    fun _ => hs.2.2.1.trans ht.2.2.1.symm
  have hdepth : s.containers.length = t.containers.length := by
    have hlength := congrArg List.length (hs.2.1.trans ht.2.1.symm)
    simpa [DeclSite.chain] using hlength
  exact ⟨tree, s, t, _, hparse, htree, hs.2.2.2, ht.2.2.2, hiff.1 rfl, (hsame rfl).2.2 hdepth⟩

/-- A class nested in a class, and a class of the same name in a namespace that is named like the
first class. -/
def mixedParts : String :=
  "class App\x7bpartial class Outer\x7b\x7d\x7dnamespace App\x7bpartial class Outer\x7b\x7d\x7d"

/-- They are registered as one type although one stands in a type and the other one does not. -/
theorem declared_mixedParts :
    ∃ tree s t key, SourceTree.parse ⟨0⟩ ⟨"a.cs", mixedParts, .source⟩ = .ok tree ∧
      s ∈ tree.sites ∧ t ∈ tree.sites ∧ s.identity = t.identity ∧
      (ofTrees [tree]).declared.get? s.decl.id = some key ∧
      (ofTrees [tree]).declared.get? t.decl.id = some key ∧
      s.path = [] ∧ s.chain = [("App", 0), ("Outer", 0)] ∧
      t.path = ["App"] ∧ t.chain = [("Outer", 0)] := by
  have hrun : placedParts? mixedParts = some
      [⟨[], [("App", 0)], "App", some (.ofName "App")⟩,
       ⟨[], [("App", 0), ("Outer", 0)], "App.Outer", some (.ofName "App.Outer")⟩,
       ⟨["App"], [("Outer", 0)], "App.Outer", some (.ofName "App.Outer")⟩] := by decide +kernel
  obtain ⟨tree, hparse, hsites⟩ := of_placedParts?_eq_some hrun
  obtain ⟨app, rest, htree, -, hsites⟩ := List.map_eq_cons_iff.1 hsites
  obtain ⟨s, rest', rfl, hs, hsites⟩ := List.map_eq_cons_iff.1 hsites
  obtain ⟨t, rest'', rfl, ht, -⟩ := List.map_eq_cons_iff.1 hsites
  simp only [placedIn, Placed.mk.injEq] at hs ht
  refine ⟨tree, s, t, .ofName "App.Outer", hparse, ?_, ?_, hs.2.2.1.trans ht.2.2.1.symm, hs.2.2.2,
    ht.2.2.2, hs.1, hs.2.1, ht.1, ht.2.1⟩
  · rw [htree]
    exact List.mem_cons_of_mem _ List.mem_cons_self
  · rw [htree]
    exact List.mem_cons_of_mem _ (List.mem_cons_of_mem _ List.mem_cons_self)

end Registration

end Graft
