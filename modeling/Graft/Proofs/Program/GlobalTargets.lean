/-
Module: Graft.Proofs.Program.GlobalTargets
Purpose: The namespaces that targets of using directives with `global::` stand for.
Main exports: Registration.find?_of_mem_chains, Scope.StandsIn, FileScopes.standsIn_inSpaces,
  Registration.globalTarget_eq

A target is reduced to the path that it spells, whether or not `global::` stands before it, and the path
is looked for as an alias and then from every namespace around the directive, the innermost first.  At the
top of a file only the root is around, so the path is found from there.
-/
import Mathlib.Data.List.Infix
import Graft.Proofs.Program.Reached
import Graft.Proofs.Program.Summary

namespace Graft

/-! ### Namespaces of declarations -/

namespace Registration

/-- Placing a declaration leaves the namespaces that there are. -/
theorem within_add (g : Registration) (o : Origin) (s : DeclSite) :
    g.registry.spaces.Within (g.add o s).registry.spaces := by
  rcases add_cases g o s with ⟨r, -, hplace, hadd⟩ | ⟨hregistry, -⟩
  · rw [hadd]
    exact (Registry.extends_place hplace).spaces
  · rw [hregistry]
    exact List.prefix_refl _

/-- Every namespace declaration in trees has its namespace, also if types are left out. -/
theorem find?_of_mem_chains {trees : List SourceTree} {t : SourceTree} (ht : t ∈ trees)
    {chain : List NamespaceDecl} (hchain : chain ∈ t.chains) :
    ((ofTrees trees).registry.spaces.find? (chain.flatMap (·.path))).isSome := by
  have hsites : ∀ (u : SourceTree) (sites : List DeclSite) (g : Registration),
      g.registry.spaces.Within (sites.foldl (fun g s => g.add u.origin s) g).registry.spaces := by
    intro u sites
    induction sites with
    | nil => exact fun _ => List.prefix_refl _
    | cons s rest ih => exact fun g => (within_add g u.origin s).trans (ih _)
  have htree : ∀ (u : SourceTree) (g : Registration),
      g.registry.spaces.Within (g.addTree u).registry.spaces :=
    fun u g => (addSpaces_spec g.registry u).1.trans
      (hsites u u.sites { g with registry := addSpaces g.registry u })
  have htrees : ∀ (list : List SourceTree) (g : Registration),
      g.registry.spaces.Within (list.foldl addTree g).registry.spaces := by
    intro list
    induction list with
    | nil => exact fun _ => List.prefix_refl _
    | cons u rest ih => exact fun g => (htree u g).trans (ih _)
  obtain ⟨before, after, rfl⟩ := List.append_of_mem ht
  rw [ofTrees, List.foldl_append, List.foldl_cons]
  obtain ⟨node, hnode⟩ :=
    Option.isSome_iff_exists.1 ((addSpaces_spec (before.foldl addTree empty).registry t).2 _ hchain)
  have hlater := (hsites t t.sites _).trans (htrees after (addTree (before.foldl addTree empty) t))
  exact Option.isSome_iff_exists.2 ⟨node, NamespaceTree.descend?_within hlater hnode⟩

end Registration

/-! ### Levels -/

/-- A directive leaves a level in its namespace. -/
theorem ScopeLevel.space_of_import? {r : Registry} {s : Scope} {l l' : ScopeLevel} {u : UsingDirective}
    (h : l.import? r s u = some l') : l'.space = l.space := by
  unfold import? at h
  split at h
  · obtain ⟨space, -, hl⟩ := Option.bind_eq_some_iff.1 h
    cases hl
    split <;> rfl
  · obtain ⟨key, -, hl⟩ := Option.bind_eq_some_iff.1 h
    obtain ⟨ref, -, hl⟩ := Option.bind_eq_some_iff.1 hl
    cases hl
    rfl
  · obtain ⟨target, -, hl⟩ := Option.bind_eq_some_iff.1 h
    cases hl
    rfl

/-- Directives leave a level in its namespace. -/
theorem Imports.space_foldl_add (r : Registry) (s : Scope) (usings : List UsingDirective) (i : Imports) :
    (usings.foldl (add r s) i).level.space = i.level.space := by
  induction usings generalizing i with
  | nil => rfl
  | cons u rest ih =>
      rw [List.foldl_cons, ih, add]
      cases h : i.level.import? r s u with
      | none => rfl
      | some level => exact ScopeLevel.space_of_import? h

/-! ### Scopes in namespaces -/

/-- The paths that lead to a path, itself first and the empty one last. -/
def pathsTo (path : List String) : List (List String) := path.inits.reverse

theorem pathsTo_concat (path : List String) (name : String) :
    pathsTo (path ++ [name]) = (path ++ [name]) :: pathsTo path := by
  simp [pathsTo, List.inits_append]

theorem exists_pathsTo_eq_cons (path : List String) : ∃ rest, pathsTo path = path :: rest := by
  induction path using List.reverseRecOn with
  | nil => exact ⟨[], rfl⟩
  | append_singleton path name _ => exact ⟨_, pathsTo_concat path name⟩

theorem nil_mem_pathsTo (path : List String) : [] ∈ pathsTo path :=
  List.mem_reverse.2 ((List.mem_inits ..).2 (List.nil_prefix))

/-- What only one element of a list has is found. -/
theorem findSome?_eq_of_others {α β : Type} {f : α → Option β} {list : List α} {a : α} (ha : a ∈ list)
    (others : ∀ b ∈ list, b ≠ a → f b = none) : list.findSome? f = f a := by
  cases hfound : f a with
  | none =>
      refine List.findSome?_eq_none_iff.2 fun b hb => ?_
      by_cases hba : b = a
      · rw [hba, hfound]
      · exact others b hb hba
  | some value =>
      obtain ⟨before, after, rfl, hbefore⟩ := List.eq_append_cons_of_mem ha
      have hnone : before.findSome? f = none := List.findSome?_eq_none_iff.2 fun b hb =>
        others b (List.mem_append_left _ hb) fun hba => hbefore (hba ▸ hb)
      rw [List.findSome?_append, hnone, List.findSome?_cons, hfound]
      rfl

namespace Scope

/-- The namespaces around a point are those on the way to a path, the innermost first. -/
def StandsIn (r : Registry) (path : List String) (s : Scope) : Prop :=
  s.levels.map (fun level => some level.space) = (pathsTo path).map r.spaces.find?

namespace StandsIn

variable {r : Registry} {path : List String} {s : Scope}

theorem unit (r : Registry) {level : ScopeLevel} (h : level.space = NamespaceTree.root) :
    StandsIn r [] (.unit level) := by
  rw [StandsIn, Scope.unit, List.map_singleton, h]
  rfl

theorem space?_eq (h : StandsIn r path s) : s.space? = r.spaces.find? path := by
  obtain ⟨rest, hrest⟩ := exists_pathsTo_eq_cons path
  have hhead := congrArg List.head? h
  rw [hrest, List.map_cons, List.head?_cons, List.head?_map] at hhead
  rw [space?]
  cases hlevel : s.levels.head? with
  | none =>
      rw [hlevel] at hhead
      cases hhead
  | some level =>
      rw [hlevel] at hhead
      exact Option.some.inj hhead

theorem enter (h : StandsIn r path s) {name : String} (level : ScopeLevel)
    (hspace : r.spaces.find? (path ++ [name]) = some level.space) :
    StandsIn r (path ++ [name]) (s.enterNamespace level) := by
  rw [StandsIn, pathsTo_concat, List.map_cons, hspace, ← h]
  rfl

/-- What is looked for from every namespace around is looked for under every path on the way. -/
theorem findSome?_descend? (h : StandsIn r path s) (target : List String) :
    (s.levels.findSome? fun level => r.spaces.descend? level.space target) =
      (pathsTo path).findSome? fun outer => r.spaces.find? (outer ++ target) := by
  have hlevels : (s.levels.map fun level => some level.space).findSome?
      (·.bind (r.spaces.descend? · target)) =
      s.levels.findSome? fun level => r.spaces.descend? level.space target := by
    rw [List.findSome?_map]
    rfl
  rw [← hlevels, h, List.findSome?_map]
  congr 1
  funext outer
  exact (NamespaceTree.descend?_append _ outer target).symm

end StandsIn

/-- A namespace without directives has no aliases. -/
theorem alias?_enterNamespace_plain (s : Scope) (space : NamespaceId) (name : String) :
    (s.enterNamespace (.plain space)).alias? name = s.alias? name := rfl

/-- The scope in which the directives of a namespace declaration are looked up is in the namespace, and has
the aliases of the scope around the declaration. -/
structure Looks (r : Registry) (path : List String) (around s : Scope) : Prop where
  standsIn : StandsIn r path s
  alias? : ∀ name, s.alias? name = around.alias? name

/-- Inside a namespace declaration the innermost level is what its directives bring in.  Each of them is
looked up in the namespace and in those around it. -/
theorem enterPath_spec {r : Registry} (usings : List UsingDirective) {last : String} {names : List String} :
    ∀ {outer : List String} {s : Scope}, StandsIn r outer s →
      (r.spaces.find? (outer ++ (names ++ [last]))).isSome →
      ∃ space s', r.spaces.find? (outer ++ (names ++ [last])) = some space ∧
        Looks r (outer ++ (names ++ [last])) s s' ∧
        StandsIn r (outer ++ (names ++ [last])) (Scope.enterPath r usings (names ++ [last]) s).1 ∧
        (Scope.enterPath r usings (names ++ [last]) s).1.levels.head? =
          some (usings.foldl (Imports.add r s') ⟨.plain space, 0⟩).level := by
  induction names with
  | nil =>
      intro outer s stands found
      rw [List.nil_append] at found ⊢
      obtain ⟨space, hspace⟩ := Option.isSome_iff_exists.1 found
      have hchild := hspace
      rw [NamespaceTree.find?_concat, ← stands.space?_eq] at hchild
      -- a namespace is never the one that it stands in, so the directives get a level of their own
      have hother : ¬s.space? = some space := by
        intro hsame
        rw [stands.space?_eq] at hsame
        have hpath := NamespaceTree.find?_inj hsame hspace
        simp at hpath
      have himports : Imports.ofUsings r space usings s =
          usings.foldl (Imports.add r (s.enterNamespace (.plain space))) ⟨.plain space, 0⟩ := by
        rw [Imports.ofUsings, if_neg hother]
      have henter : (Scope.enterPath r usings [last] s).1 = s.enterNamespace
          (usings.foldl (Imports.add r (s.enterNamespace (.plain space))) ⟨.plain space, 0⟩).level := by
        rw [Scope.enterPath, hchild]
        dsimp only
        rw [if_pos List.isEmpty_nil, himports]
      rw [henter]
      refine ⟨space, s.enterNamespace (.plain space), hspace,
        ⟨stands.enter _ hspace, alias?_enterNamespace_plain s space⟩, stands.enter _ ?_, rfl⟩
      rw [Imports.space_foldl_add, hspace]
      rfl
  | cons name rest ih =>
      intro outer s stands found
      have hassoc : outer ++ (name :: rest ++ [last]) = (outer ++ [name]) ++ (rest ++ [last]) := by simp
      rw [hassoc] at found ⊢
      obtain ⟨child, hchild⟩ := Option.isSome_iff_exists.1 (NamespaceTree.isSome_find?_of_append found)
      obtain ⟨space, s', hspace, looks, inside⟩ := ih (stands.enter (.plain child) hchild) found
      have henter : Scope.enterPath r usings (name :: rest ++ [last]) s =
          Scope.enterPath r usings (rest ++ [last]) (s.enterNamespace (.plain child)) := by
        rw [NamespaceTree.find?_concat, ← stands.space?_eq] at hchild
        rw [List.cons_append, Scope.enterPath, hchild]
        dsimp only
        rw [if_neg (by simp)]
      rw [henter]
      exact ⟨space, s', hspace, ⟨looks.standsIn, looks.alias?⟩, inside⟩

end Scope

namespace FileScopes

variable {trees : List SourceTree}

/-- The directives of files, and those for all files, are looked up in the root namespace alone. -/
theorem ofUsings_unitScope (r : Registry) (usings : List UsingDirective) :
    Imports.ofUsings r NamespaceTree.root usings unitScope =
      usings.foldl (Imports.add r unitScope) ⟨.plain NamespaceTree.root, 0⟩ := rfl

theorem standsIn_atTop (r : Registry) (trees : List SourceTree) (t : SourceTree) :
    Scope.StandsIn r [] ((ofTrees r trees).atTop t) := by
  refine .unit r ?_
  change (ofTrees r trees).shared.level.space = NamespaceTree.root
  rw [ofTrees, ofUsings_unitScope, Imports.space_foldl_add]
  rfl

theorem inSpaces_concat (f : FileScopes) (top : Scope) (outer : List NamespaceDecl) (d : NamespaceDecl) :
    f.inSpaces top (outer ++ [d]) =
      (Scope.enterPath f.registry d.usings d.path (f.inSpaces top outer)).1 := by
  rw [inSpaces, List.foldl_append]
  rfl

/-- Inside namespace declarations that have namespaces, the namespaces around are
those of the declarations. -/
theorem standsIn_inSpaces {f : FileScopes} {top : Scope} (htop : Scope.StandsIn f.registry [] top)
    {chain : List NamespaceDecl} (found : (f.registry.spaces.find? (chain.flatMap (·.path))).isSome) :
    Scope.StandsIn f.registry (chain.flatMap (·.path)) (f.inSpaces top chain) := by
  induction chain using List.reverseRecOn with
  | nil => exact htop
  | append_singleton outer d ih =>
      rw [List.flatMap_append, List.flatMap_singleton] at found ⊢
      have stands := ih (NamespaceTree.isSome_find?_of_append found)
      rw [inSpaces_concat]
      rcases List.eq_nil_or_concat d.path with hnil | ⟨names, last, hpath⟩
      · rw [hnil, List.append_nil]
        exact stands
      · rw [List.concat_eq_append] at hpath
        rw [hpath] at found ⊢
        obtain ⟨-, -, -, -, inside, -⟩ := Scope.enterPath_spec d.usings stands found
        exact inside

end FileScopes

/-! ### Targets -/

/-- The path that a target spells after `global::`. -/
def TypeSyntax.globalPath? (target : TypeSyntax) : Option (List String) := do
  let n ← target.named?
  if n.isGlobal && n.segments.all (·.args.isEmpty) then some n.path else none

theorem ScopeLevel.spacePath?_of_globalPath? {target : TypeSyntax} {path : List String}
    (h : target.globalPath? = some path) : spacePath? target = some path := by
  unfold TypeSyntax.globalPath? at h
  obtain ⟨n, hn, h⟩ := Option.bind_eq_some_iff.1 h
  split at h
  · rename_i hglobal
    rw [Bool.and_eq_true] at hglobal
    rw [spacePath?, hn, ← h]
    exact if_pos (by rw [hglobal.1, hglobal.2, Bool.or_true]; rfl)
  · cases h

/-- The namespace that a path is an alias for, which only a single name can be. -/
def Scope.aliasedSpace? (s : Scope) : List String → Option NamespaceId
  | [only] => s.spaceAlias? only
  | _ => none

/-- A target with `global::` in a namespace declaration. -/
theorem Scope.Looks.spaceTarget?_eq {r : Registry} {path : List String} {around s : Scope}
    (looks : Looks r path around s) {target : TypeSyntax} {names : List String}
    (h : target.globalPath? = some names) :
    ScopeLevel.spaceTarget? r s target = (around.aliasedSpace? names <|>
      (pathsTo path).findSome? fun outer => r.spaces.find? (outer ++ names)) := by
  have hpath : ScopeLevel.spaceTarget? r s target = Lookup.space? r s names := by
    rw [ScopeLevel.spaceTarget?, ScopeLevel.spacePath?_of_globalPath? h]
    rfl
  have halias : ∀ name, s.spaceAlias? name = around.spaceAlias? name := fun name => by
    rw [spaceAlias?.eq_def, spaceAlias?.eq_def, looks.alias?]
  rw [hpath, ← looks.standsIn.findSome?_descend?, Lookup.space?.eq_def]
  rcases names with _ | ⟨only, _ | ⟨next, rest⟩⟩
  · rfl
  · have hown : around.aliasedSpace? [only] = s.spaceAlias? only := (halias only).symm
    rw [hown]
  · rfl

namespace Registration

/-- A target that is written `global::P` is found from the root namespace at the top of a file.  In a
namespace declaration it is what `P` is an alias for around the declaration, or else what `P` is under the
longest path on the way to the namespace under which there is a `P`.  So it is found from the root if no
alias and no other path gives it a meaning. -/
theorem globalTarget_eq (trees : List SourceTree) {target : TypeSyntax} {names : List String}
    (h : target.globalPath? = some names) :
    let r := (ofTrees trees).registry
    let f := FileScopes.ofTrees r trees
    (∀ usings, Imports.ofUsings r NamespaceTree.root usings FileScopes.unitScope =
        usings.foldl (Imports.add r FileScopes.unitScope) ⟨.plain NamespaceTree.root, 0⟩) ∧
      ScopeLevel.spaceTarget? r FileScopes.unitScope target = r.spaces.find? names ∧
      ∀ t ∈ trees, ∀ outer d, outer ++ [d] ∈ t.chains → d.path ≠ [] →
        let path := outer.flatMap (·.path) ++ d.path
        let around := f.inSpaces (f.atTop t) outer
        ∃ space s, r.spaces.find? path = some space ∧
          (f.inSpaces (f.atTop t) (outer ++ [d])).levels.head? =
            some (d.usings.foldl (Imports.add r s) ⟨.plain space, 0⟩).level ∧
          ScopeLevel.spaceTarget? r s target = (around.aliasedSpace? names <|>
            (pathsTo path).findSome? fun outer => r.spaces.find? (outer ++ names)) ∧
          (around.aliasedSpace? names = none →
            (∀ outer ∈ pathsTo path, outer ≠ [] → r.spaces.find? (outer ++ names) = none) →
              ScopeLevel.spaceTarget? r s target = r.spaces.find? names) := by
  intro r f
  have hunit : Scope.Looks r [] FileScopes.unitScope FileScopes.unitScope := ⟨.unit r rfl, fun _ => rfl⟩
  refine ⟨fun _ => rfl, ?_, fun t ht outer d hchain hne => ?_⟩
  · have halias : FileScopes.unitScope.aliasedSpace? names = none := by
      rcases names with _ | ⟨only, _ | ⟨next, rest⟩⟩ <;> rfl
    rw [hunit.spaceTarget?_eq h, halias]
    exact List.findSome?_singleton
  · intro path around
    obtain ⟨names', last, hpath⟩ := (List.eq_nil_or_concat d.path).resolve_left hne
    rw [List.concat_eq_append] at hpath
    have found := find?_of_mem_chains ht hchain
    rw [List.flatMap_append, List.flatMap_singleton, hpath] at found
    have stands : Scope.StandsIn r (outer.flatMap (·.path)) around :=
      FileScopes.standsIn_inSpaces (FileScopes.standsIn_atTop r trees t)
        (NamespaceTree.isSome_find?_of_append found)
    obtain ⟨space, s, hspace, looks, -, hlevel⟩ := Scope.enterPath_spec d.usings stands found
    rw [← hpath] at hspace looks hlevel
    have heq := looks.spaceTarget?_eq h
    refine ⟨space, s, hspace, ?_, heq, fun hnone others => ?_⟩
    · rw [FileScopes.inSpaces_concat]
      exact hlevel
    · rw [heq, hnone]
      exact findSome?_eq_of_others (nil_mem_pathsTo path) others

/-! ### Sample files -/

/-- What is known of a directive in a namespace declaration: the path of the namespace, the path that the
directive spells after `global::`, what that is an alias for around the declaration, what it is under each
path on the way to the namespace, and what the directives of the declaration import. -/
structure ImportSample where
  path : List String
  names : List String
  aliased : Option NamespaceId
  spaces : List (Option NamespaceId)
  imports : List NamespaceId
deriving DecidableEq

/-- The directive is the only one of a namespace declaration in documents that are
registered without errors. -/
structure ImportSample.Reads (i : ImportSample) (documents : List Document) (trees : List SourceTree)
    (t : SourceTree) (outer : List NamespaceDecl) (d : NamespaceDecl) (u : UsingDirective) : Prop where
  read : Compilation.read documents = .ok trees
  clean : (ofTrees trees).errors = []
  mem_trees : t ∈ trees
  mem_chains : outer ++ [d] ∈ t.chains
  path_ne : d.path ≠ []
  usings_eq : d.usings = [u]
  kind_eq : u.kind = .namespaceImport
  globalPath? : u.target.globalPath? = some i.names
  path_eq : outer.flatMap (·.path) ++ d.path = i.path
  aliased_eq : ((FileScopes.ofTrees (ofTrees trees).registry trees).inSpaces
    ((FileScopes.ofTrees (ofTrees trees).registry trees).atTop t) outer).aliasedSpace? i.names = i.aliased
  spaces_eq : (pathsTo i.path).map ((ofTrees trees).registry.spaces.find? <| · ++ i.names) = i.spaces
  imports_eq : ((FileScopes.ofTrees (ofTrees trees).registry trees).inSpaces
    ((FileScopes.ofTrees (ofTrees trees).registry trees).atTop t) (outer ++ [d])).levels.head?.map
      (·.imports) = some i.imports

/-- The sample of the first namespace declaration with directives. -/
def firstImport? (documents : List Document) : Option ImportSample := do
  let trees ← (Compilation.read documents).toOption
  let r := (ofTrees trees).registry
  let f := FileScopes.ofTrees r trees
  let t ← trees.head?
  let chain ← t.chains.find? fun chain => chain.getLast?.any (!·.usings.isEmpty)
  let d ← chain.getLast?
  let u ← d.usings.head?
  let names ← u.target.globalPath?
  let imports ← (f.inSpaces (f.atTop t) chain).levels.head?.map (·.imports)
  let path := chain.dropLast.flatMap (·.path) ++ d.path
  if (ofTrees trees).errors.isEmpty ∧ d.path ≠ [] ∧ d.usings.tail.isEmpty ∧ u.kind = .namespaceImport then
    some { path, names, imports
           aliased := (f.inSpaces (f.atTop t) chain.dropLast).aliasedSpace? names
           spaces := (pathsTo path).map (r.spaces.find? <| · ++ names) }
  else none

theorem of_firstImport?_eq_some {documents : List Document} {i : ImportSample}
    (h : firstImport? documents = some i) :
    ∃ trees t outer d u, i.Reads documents trees t outer d u := by
  unfold firstImport? at h
  obtain ⟨trees, hread, h⟩ := Option.bind_eq_some_iff.1 h
  obtain ⟨t, ht, h⟩ := Option.bind_eq_some_iff.1 h
  obtain ⟨chain, hchain, h⟩ := Option.bind_eq_some_iff.1 h
  obtain ⟨d, hd, h⟩ := Option.bind_eq_some_iff.1 h
  obtain ⟨u, hu, h⟩ := Option.bind_eq_some_iff.1 h
  obtain ⟨names, hnames, h⟩ := Option.bind_eq_some_iff.1 h
  obtain ⟨imports, himports, h⟩ := Option.bind_eq_some_iff.1 h
  have hsplit : chain.dropLast ++ [d] = chain := List.dropLast_append_getLast? d hd
  split at h
  · rename_i hok
    cases h
    refine ⟨trees, t, chain.dropLast, d, u, eq_ok_of_toOption hread, List.isEmpty_iff.1 hok.1,
      List.mem_of_mem_head? ht, ?_, hok.2.1, ?_, hok.2.2.2, hnames, rfl, rfl, rfl, ?_⟩
    · rw [hsplit]
      exact List.mem_of_find?_eq_some hchain
    · rw [List.eq_cons_of_mem_head? hu, List.isEmpty_iff.1 hok.2.2.1]
    · rw [hsplit]
      exact himports
  · cases h

/-- In a namespace in the root, the target is looked for there and then in the root. -/
theorem ImportSample.Reads.spaces_pair {name target : String} {aliased inner root : Option NamespaceId}
    {imports : List NamespaceId} {documents : List Document} {trees : List SourceTree} {t : SourceTree}
    {outer : List NamespaceDecl} {d : NamespaceDecl} {u : UsingDirective}
    (sample : Reads ⟨[name], [target], aliased, [inner, root], imports⟩ documents trees t outer d u) :
    (ofTrees trees).registry.spaces.find? [name, target] = inner ∧
      (ofTrees trees).registry.spaces.find? [target] = root := by
  simpa [pathsTo] using sample.spaces_eq

/-- A namespace after one that its directive imports. -/
def importAfter : List Document :=
  [⟨"a.cs", "namespace P\x7bclass A\x7b\x7d\x7dnamespace N\x7busing global::P;class C\x7bA a;\x7d\x7d",
    .source⟩]

/-- The directive brings in the namespace in the root. -/
theorem globalTarget_eq_importAfter :
    ∃ trees t outer d u s, Compilation.read importAfter = .ok trees ∧ t ∈ trees ∧ outer ++ [d] ∈ t.chains ∧
      d.usings = [u] ∧ u.kind = .namespaceImport ∧ u.target.globalPath? = some ["P"] ∧
      let r := (ofTrees trees).registry
      let f := FileScopes.ofTrees r trees
      (∃ space, (f.inSpaces (f.atTop t) (outer ++ [d])).levels.head? =
          some (d.usings.foldl (Imports.add r s) ⟨.plain space, 0⟩).level) ∧
        ScopeLevel.spaceTarget? r s u.target = r.spaces.find? ["P"] ∧ r.spaces.find? ["P"] = some 1 := by
  obtain ⟨trees, t, outer, d, u, sample⟩ := of_firstImport?_eq_some
    (show firstImport? importAfter = some ⟨["N"], ["P"], none, [none, some 1], [1]⟩ by decide +kernel)
  obtain ⟨houter, hroot⟩ := sample.spaces_pair
  obtain ⟨space, s, -, hlevel, -, habsolute⟩ :=
    (globalTarget_eq trees sample.globalPath?).2.2 t sample.mem_trees outer d sample.mem_chains
      sample.path_ne
  refine ⟨trees, t, outer, d, u, s, sample.read, sample.mem_trees, sample.mem_chains, sample.usings_eq,
    sample.kind_eq, sample.globalPath?, ⟨space, hlevel⟩, habsolute sample.aliased_eq ?_, hroot⟩
  rw [sample.path_eq]
  intro path hpath hne
  rcases List.mem_pair.1 hpath with rfl | rfl
  · exact houter
  · exact absurd rfl hne

/-- A namespace that has a namespace of the same name as one in the root. -/
def innerNamesake : List Document :=
  [⟨"a.cs", "namespace P\x7bclass A\x7b\x7d\x7d" ++
      "namespace N\x7busing global::P;namespace P\x7bclass B\x7b\x7d\x7dclass C\x7bA a;\x7d\x7d", .source⟩]

/-- The directive brings in the namespace around it although it spells the one in the root. -/
theorem globalTarget_relative_innerNamesake :
    ∃ trees t outer d u node, Compilation.read innerNamesake = .ok trees ∧ (ofTrees trees).errors = [] ∧
      t ∈ trees ∧ outer ++ [d] ∈ t.chains ∧ d.usings = [u] ∧ u.kind = .namespaceImport ∧
      u.target.globalPath? = some ["P"] ∧
      let r := (ofTrees trees).registry
      let f := FileScopes.ofTrees r trees
      (f.inSpaces (f.atTop t) (outer ++ [d])).levels.head?.map (·.imports) = some [node] ∧
        (r.spaces.find? ["P"]).isSome ∧ r.spaces.find? ["P"] ≠ some node := by
  obtain ⟨trees, t, outer, d, u, sample⟩ := of_firstImport?_eq_some
    (show firstImport? innerNamesake = some ⟨["N"], ["P"], none, [some 3, some 1], [3]⟩ by decide +kernel)
  have hroot := sample.spaces_pair.2
  refine ⟨trees, t, outer, d, u, 3, sample.read, sample.clean, sample.mem_trees, sample.mem_chains,
    sample.usings_eq, sample.kind_eq, sample.globalPath?, sample.imports_eq, ?_, ?_⟩
  · rw [hroot]
    rfl
  · rw [hroot]
    decide

end Registration

end Graft
