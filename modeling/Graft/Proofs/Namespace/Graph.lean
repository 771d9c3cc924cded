/-
Module: Graft.Proofs.Namespace.Graph
Purpose: The graph of namespaces is a tree, and each namespace has the path that it is found by.
Main exports: NamespaceTree.find?_eq_some_iff, NamespaceGraph.Mirrors, NamespaceGraph.Reached.mirrors,
  NamespaceGraph.IsTree, NamespaceGraph.Faithful, NamespaceGraph.Reached.faithful

An edge is added only together with the node that it leads to, so that every node but the root has one edge
into it, from an older node.  A call adds an edge only where none with its name is, so that the
names of siblings differ.
-/
import Graft.Namespace.Graph
import Graft.Proofs.Program.Complete
import Graft.Proofs.Program.Indexed

namespace Graft

/-! ### Links -/

namespace NamespaceTree

/-- Each namespace is younger than its parent, and siblings have different names. -/
structure Sound (t : NamespaceTree) : Prop where
  older : ∀ {n : Nat} {parent : NamespaceId} {name : String}, t.links[n]? = some (parent, name) → parent ≤ n
  distinct : t.links.Nodup

variable {t : NamespaceTree} {node parent : NamespaceId} {name : String}

theorem parent?_of_link? (h : t.link? node = some (parent, name)) : t.parent? node = some parent := by
  rw [parent?, h]
  rfl

theorem name?_of_link? (h : t.link? node = some (parent, name)) : t.name? node = some name := by
  rw [name?, h]
  rfl

/-- A namespace with a link is none of those beyond the last, and not the root. -/
theorem exists_of_link? (h : t.link? node = some (parent, name)) :
    ∃ n, node = n + 1 ∧ t.links[n]? = some (parent, name) := by
  cases node with
  | zero => cases h
  | succ n => exact ⟨n, rfl, h⟩

theorem lt_size_of_link? (h : t.link? node = some (parent, name)) : node < t.size := by
  obtain ⟨n, rfl, hn⟩ := exists_of_link? h
  exact Nat.succ_lt_succ (List.getElem?_eq_some_iff.1 hn).1

/-- Only the root has no link. -/
theorem exists_link? (below : node ≠ root) (h : node < t.size) :
    ∃ parent name, t.link? node = some (parent, name) := by
  obtain ⟨n, rfl⟩ := Nat.exists_eq_succ_of_ne_zero below
  exact ⟨_, _, List.getElem?_eq_getElem (Nat.lt_of_succ_lt_succ h)⟩

theorem exists_of_parent? (h : t.parent? node = some parent) :
    ∃ name, t.link? node = some (parent, name) := by
  obtain ⟨⟨parent', name⟩, hlink, rfl⟩ := Option.map_eq_some_iff.1 h
  exact ⟨name, hlink⟩

/-- A namespace is the first of its ancestors. -/
theorem cons_tail_ancestors (t : NamespaceTree) (node : NamespaceId) :
    node :: (t.ancestors node).tail = t.ancestors node := by
  rw [ancestors]
  split
  · split <;> rfl
  · rfl

theorem ancestors_of_parent?_eq_none (h : t.parent? node = none) : t.ancestors node = [node] := by
  rw [ancestors, h]

theorem pathOf_root : t.pathOf root = [] := by
  rw [pathOf, ancestors_of_parent?_eq_none rfl]
  rfl

/-- A type that is registered is one more of its name in its namespace, unless it is one of them. -/
theorem typesNamed_register (t : NamespaceTree) (home : NamespaceId) (name : String) (key : TypeKey)
    (home' : NamespaceId) (name' : String) : (t.register home name key).typesNamed home' name' =
      if home' = home ∧ name' = name then
        if key ∈ t.typesNamed home name then t.typesNamed home name else t.typesNamed home name ++ [key]
      else t.typesNamed home' name' := by
  simp only [mem_typesNamed, register]
  by_cases hthere : (⟨home, name, key⟩ : Resident) ∈ t.residents
  · simp only [hthere, if_true]
    split
    · rename_i h
      rw [h.1, h.2]
      rfl
    · rfl
  · simp only [hthere, if_false, typesNamed, List.filter_append, List.map_append]
    split
    · rename_i h
      rw [h.1, h.2]
      simp
    · rename_i h
      have hnone : ([⟨home, name, key⟩] : List Resident).filter (fun r => r.home = home' ∧ r.name = name') =
          [] := by
        refine List.filter_cons_of_neg ?_
        simpa using fun (hhome : home = home') (hname : name = name') => h ⟨hhome.symm, hname.symm⟩
      rw [hnone, List.map_nil, List.append_nil]

namespace Sound

theorem lt_of_link? (sound : t.Sound) (h : t.link? node = some (parent, name)) : parent < node := by
  obtain ⟨n, rfl, hn⟩ := exists_of_link? h
  exact Nat.lt_succ_of_le (sound.older hn)

/-- A namespace is found under its parent by its name. -/
theorem child?_eq_some_iff (sound : t.Sound) : t.child? parent name = some node ↔
    t.link? node = some (parent, name) := by
  refine ⟨link?_of_child?, fun h => ?_⟩
  obtain ⟨n, rfl, hn⟩ := exists_of_link? h
  obtain ⟨hlt, hget⟩ := List.getElem?_eq_some_iff.1 hn
  have hidx : t.links.idxOf? (parent, name) = some n := by
    rw [← hget, List.idxOf?_eq_some_iff]
    exact ⟨hlt, rfl, fun j hj heq => Nat.ne_of_lt hj (sound.distinct.getElem_inj_iff.1 heq)⟩
  rw [child?, hidx]
  rfl

theorem empty : NamespaceTree.empty.Sound := ⟨nofun, .nil⟩

/-- A new link from a namespace that is there keeps the tree sound. -/
theorem concat (sound : t.Sound) (hparent : parent < t.size) (new : t.child? parent name = none) :
    ({ t with links := t.links ++ [(parent, name)] } : NamespaceTree).Sound where
  older {n parent' name'} h := by
    rcases Nat.lt_or_ge n t.links.length with hlt | hge
    · rw [List.getElem?_append_left hlt] at h
      exact sound.older h
    · rw [List.getElem?_append_right hge] at h
      obtain ⟨hn, hget⟩ := List.getElem?_eq_some_iff.1 h
      rw [List.getElem_singleton] at hget
      obtain ⟨rfl, -⟩ := Prod.mk.inj hget
      exact Nat.le_trans (Nat.le_of_lt_succ hparent) hge
  distinct := by
    have habsent : (parent, name) ∉ t.links := List.idxOf?_eq_none_iff.1 (Option.map_eq_none_iff.1 new)
    exact sound.distinct.append (List.nodup_singleton _) (List.disjoint_singleton.2 habsent)

/-! ### Ways up -/

theorem ancestors_of_link? (sound : t.Sound) (h : t.link? node = some (parent, name)) :
    t.ancestors node = node :: t.ancestors parent := by
  rw [ancestors, parent?_of_link? h]
  exact if_pos (sound.lt_of_link? h)

theorem pathOf_of_link? (sound : t.Sound) (h : t.link? node = some (parent, name)) :
    t.pathOf node = t.pathOf parent ++ [name] := by
  rw [pathOf, sound.ancestors_of_link? h, List.reverse_cons, List.filterMap_append]
  simp [pathOf, name?_of_link? h]

/-- A namespace with a path is one of those that are there, and the names on the way to it are the path. -/
theorem find?_eq_some_iff (sound : t.Sound) {path : List String} :
    t.find? path = some node ↔ node < t.size ∧ t.pathOf node = path := by
  constructor
  · intro h
    induction path using List.reverseRecOn generalizing node with
    | nil =>
        obtain rfl : root = node := Option.some.inj h
        exact ⟨Nat.succ_pos _, pathOf_root⟩
    | append_singleton path name ih =>
        rw [find?_concat] at h
        obtain ⟨parent, hparent, hchild⟩ := Option.bind_eq_some_iff.1 h
        have hlink := link?_of_child? hchild
        exact ⟨lt_size_of_link? hlink, by rw [sound.pathOf_of_link? hlink, (ih hparent).2]⟩
  · rintro ⟨hsize, rfl⟩
    induction node using Nat.strongRecOn with
    | ind node ih =>
        rcases eq_or_ne node root with rfl | below
        · rw [pathOf_root]
          rfl
        · obtain ⟨parent, name, hlink⟩ := exists_link? below hsize
          have hlt := sound.lt_of_link? hlink
          rw [sound.pathOf_of_link? hlink, find?_concat, ih parent hlt (Nat.lt_trans hlt hsize)]
          exact sound.child?_eq_some_iff.2 hlink

end Sound

end NamespaceTree

/-! ### Edges -/

namespace NamespaceGraph

open NamespaceTree (root)

variable {g : NamespaceGraph} {t : NamespaceTree} {node parent : NamespaceId} {name : String}
  {path : List String}

/-- The edges that stand for links: each leads from the parent to the namespace
with the number of the link. -/
def edgesOf (links : List (NamespaceId × String)) : List NamespaceEdge :=
  links.zipIdx.map fun (link, n) => ⟨link.1, n + 1, link.2⟩

theorem edgesOf_concat (links : List (NamespaceId × String)) (link : NamespaceId × String) :
    edgesOf (links ++ [link]) = edgesOf links ++ [⟨link.1, links.length + 1, link.2⟩] := by
  simp [edgesOf, List.zipIdx_append]

theorem mem_edgesOf {links : List (NamespaceId × String)} {e : NamespaceEdge} :
    e ∈ edgesOf links ↔ ∃ n, links[n]? = some (e.source, e.name) ∧ e.target = n + 1 := by
  obtain ⟨source, target, name⟩ := e
  simp only [edgesOf, List.mem_map, Prod.exists, List.mk_mem_zipIdx_iff_getElem?, NamespaceEdge.mk.injEq]
  constructor
  · rintro ⟨parent, name', n, hn, rfl, rfl, rfl⟩
    exact ⟨n, hn, rfl⟩
  · rintro ⟨n, hn, rfl⟩
    exact ⟨source, name, n, hn, rfl, rfl, rfl⟩

/-- The graph holds what the tree holds. -/
structure Mirrors (g : NamespaceGraph) (t : NamespaceTree) : Prop where
  sound : t.Sound
  size : g.size = t.size
  edges : g.edges = edgesOf t.links
  types : ∀ home name, g.typesNamed home name = t.typesNamed home name
  homes : g.homes = t.homes

/-- One edge leads to a namespace that has a link, and none to one that has not. -/
theorem incoming_eq (h : g.edges = edgesOf t.links) (node : NamespaceId) :
    g.incoming node = (t.link? node).toList.map fun link => ⟨link.1, node, link.2⟩ := by
  obtain ⟨links, residents, homes⟩ := t
  rw [incoming, h]
  clear h
  induction links using List.reverseRecOn with
  | nil => cases node <;> rfl
  | append_singleton links link ih =>
      rw [edgesOf_concat, List.reverse_append, List.reverse_singleton, List.singleton_append]
      by_cases hlast : links.length + 1 = node
      · subst hlast
        have hnone : (edgesOf links).reverse.filter (·.target = links.length + 1) = [] := by
          rw [ih]
          simp [NamespaceTree.link?]
        rw [List.filter_cons_of_pos (by simp), hnone]
        simp [NamespaceTree.link?]
      · rw [List.filter_cons_of_neg (by simpa using hlast), ih]
        cases node with
        | zero => rfl
        | succ n =>
            have hother : (links ++ [link])[n]? = links[n]? := by
              rcases Nat.lt_or_ge n links.length with hlt | hge
              · exact List.getElem?_append_left hlt
              · have hbeyond : (links ++ [link]).length ≤ n := by
                  rw [List.length_append, List.length_singleton]
                  omega
                rw [List.getElem?_eq_none hge, List.getElem?_eq_none hbeyond]
            rw [NamespaceTree.link?, NamespaceTree.link?, hother]

theorem parent?_eq (h : g.edges = edgesOf t.links) (node : NamespaceId) :
    g.parent? node = t.parent? node := by
  rw [parent?, incoming_eq h, NamespaceTree.parent?]
  cases t.link? node <;> rfl

theorem name?_eq (h : g.edges = edgesOf t.links) (node : NamespaceId) : g.name? node = t.name? node := by
  rw [name?, incoming_eq h, NamespaceTree.name?]
  split
  · rename_i hroot
    rw [hroot]
    rfl
  · cases t.link? node <;> rfl

/-- Where names of siblings differ, it does not count which edge comes first. -/
theorem child?_eq (h : g.edges = edgesOf t.links) (distinct : t.links.Nodup) (parent : NamespaceId)
    (name : String) :
    g.child? parent name = t.child? parent name := by
  obtain ⟨links, residents, homes⟩ := t
  rw [child?, outgoing, h, NamespaceTree.child?]
  clear h
  induction links using List.reverseRecOn with
  | nil => rfl
  | append_singleton links link ih =>
      obtain ⟨hlinks, -, hnew⟩ := List.nodup_append.1 distinct
      rw [edgesOf_concat, List.reverse_append, List.reverse_singleton, List.singleton_append, List.idxOf?,
        List.findIdx?_append, ← List.idxOf?]
      by_cases hlink : link = (parent, name)
      · subst hlink
        have habsent : links.idxOf? (parent, name) = none :=
          List.idxOf?_eq_none_iff.2 fun hmem => hnew _ hmem _ (List.mem_singleton_self _) rfl
        rw [habsent, List.filter_cons_of_pos (by simp), List.find?_cons_of_pos (by simp)]
        simp
      · have hskip : ∀ edges : List NamespaceEdge,
            ((⟨link.1, links.length + 1, link.2⟩ :: edges).filter (·.source = parent)).find?
              (·.name = name) = (edges.filter (·.source = parent)).find? (·.name = name) := by
          intro edges
          by_cases hsource : link.1 = parent
          · have hname : link.2 ≠ name := fun hname => hlink (Prod.ext hsource hname)
            rw [List.filter_cons_of_pos (by simpa using hsource),
              List.find?_cons_of_neg (by simpa using hname)]
          · rw [List.filter_cons_of_neg (by simpa using hsource)]
        rw [hskip, ih hlinks]
        simp [hlink]

/-! ### Calls -/

namespace Mirrors

variable (mirrors : g.Mirrors t)
include mirrors

theorem child? (parent : NamespaceId) (name : String) : g.child? parent name = t.child? parent name :=
  child?_eq mirrors.edges mirrors.sound.distinct parent name

theorem descend? (start : NamespaceId) (path : List String) :
    g.descend? start path = t.descend? start path := by
  induction path generalizing start with
  | nil => rfl
  | cons name rest ih =>
      rw [NamespaceGraph.descend?, List.foldlM_cons, mirrors.child?, NamespaceTree.descend?]
      cases t.child? start name with
      | none => rfl
      | some child => exact ih child

theorem find? (path : List String) : g.find? path = t.find? path := mirrors.descend? root path

theorem lt_size_of_child? {child : NamespaceId} (h : g.child? parent name = some child) :
    child < g.size := by
  rw [mirrors.child?] at h
  rw [mirrors.size]
  exact NamespaceTree.lt_size_of_link? (NamespaceTree.link?_of_child? h)

/-- No type is declared in a namespace that is not there. -/
theorem typesNamed_of_size_le {home : NamespaceId} (h : g.size ≤ home) (name : String) :
    t.typesNamed home name = [] := by
  rw [← mirrors.types, typesNamed, List.getElem?_eq_none h]
  rfl

/-- The node that a call makes or finds, and what it leaves. -/
theorem createChild (hparent : parent < g.size) (name : String) :
    (g.createChild parent name).1 = (t.createChild parent name).1 ∧
      (g.createChild parent name).1 < (g.createChild parent name).2.size ∧
      (g.createChild parent name).2.Mirrors (t.createChild parent name).2 := by
  unfold NamespaceGraph.createChild NamespaceTree.createChild
  rw [mirrors.child?]
  cases hchild : t.child? parent name with
  | some child => exact ⟨rfl, mirrors.lt_size_of_child? ((mirrors.child? _ _).trans hchild), mirrors⟩
  | none =>
      have hsize : g.nodes.length = t.size := mirrors.size
      refine ⟨hsize, by simp [NamespaceGraph.size], ?_, ?_, ?_, fun home other => ?_, mirrors.homes⟩
      · exact mirrors.sound.concat (mirrors.size ▸ hparent) hchild
      · simp [NamespaceGraph.size, NamespaceTree.size, hsize]
      · dsimp only
        rw [edgesOf_concat, mirrors.edges, hsize]
        rfl
      · have hold : t.typesNamed home other =
            ({ t with links := t.links ++ [(parent, name)] }).typesNamed home other := rfl
        rw [← hold]
        rcases Nat.lt_or_ge home g.size with hlt | hge
        · rw [← mirrors.types, typesNamed, typesNamed, List.getElem?_append_left hlt]
        · rw [mirrors.typesNamed_of_size_le hge, typesNamed, List.getElem?_append_right hge]
          cases home - g.nodes.length <;> rfl

theorem createPath (path : List String) : (g.createPath path).1 = (t.createPath path).1 ∧
    (g.createPath path).1 < (g.createPath path).2.size ∧
    (g.createPath path).2.Mirrors (t.createPath path).2 := by
  have hfrom : ∀ {g : NamespaceGraph} {t : NamespaceTree} {start : NamespaceId}, g.Mirrors t →
      start < g.size →
      let made := path.foldl (fun (s : NamespaceId × NamespaceGraph) name => s.2.createChild s.1 name)
        (start, g)
      made.1 = (t.createFrom start path).1 ∧ made.1 < made.2.size ∧
      made.2.Mirrors (t.createFrom start path).2 := by
    induction path with
    | nil => exact fun mirrors hstart => ⟨rfl, hstart, mirrors⟩
    | cons name rest ih =>
        intro g t start mirrors hstart
        obtain ⟨hnode, hlt, hmirrors⟩ := mirrors.createChild hstart name
        simp only [List.foldl_cons, NamespaceTree.createFrom]
        rw [← hnode]
        exact ih hmirrors hlt
  refine hfrom mirrors ?_
  rw [mirrors.size]
  exact Nat.succ_pos _

theorem register {home : NamespaceId} (hhome : home < g.size) (name : String) (key : TypeKey) :
    (g.register home name key).Mirrors (t.register home name key) := by
  obtain ⟨types, hget⟩ : ∃ types, g.nodes[home]? = some types := ⟨_, List.getElem?_eq_getElem hhome⟩
  have hknown : (types.get? name).getD [] = t.typesNamed home name := by
    rw [← mirrors.types, typesNamed, hget]
    rfl
  rw [NamespaceGraph.register, hget]
  dsimp only
  rw [hknown]
  refine ⟨⟨mirrors.sound.older, mirrors.sound.distinct⟩, ?_, mirrors.edges, fun home' name' => ?_, ?_⟩
  · rw [NamespaceGraph.size, List.length_set]
    exact mirrors.size
  · rw [NamespaceTree.typesNamed_register, ← mirrors.types home' name']
    by_cases hsame : home' = home
    · subst hsame
      rw [typesNamed, List.getElem?_set_self hhome]
      simp only [typesNamed, hget, Option.bind_some, Assoc.get?_insert, true_and]
      split <;> rfl
    · rw [typesNamed, List.getElem?_set_ne (Ne.symm hsame), if_neg fun h => hsame h.1]
      rfl
  · rw [mirrors.homes]
    rfl

/-- What a call does to the graph it does to the tree. -/
theorem after {c : NamespaceCall} (within : c.Within g.size) : (g.after c).Mirrors (t.after c) := by
  cases c with
  | child parent name => exact (mirrors.createChild within name).2.2
  | path path => exact (mirrors.createPath path).2.2
  | register home name key => exact mirrors.register within name key

end Mirrors

/-- Whatever was called, the graph holds what the tree holds. -/
theorem Reached.mirrors (h : g.Reached t) : g.Mirrors t := by
  induction h with
  | new => exact ⟨.empty, rfl, rfl, fun home name => by cases home <;> rfl, rfl⟩
  | call _ within ih => exact ih.after within

/-! ### Ways up -/

namespace Mirrors

variable (mirrors : g.Mirrors t)
include mirrors

/-- The search for ancestors ends in one way. -/
theorem chains_iff {chain found : List NamespaceId} :
    g.Chains node chain found ↔ found = chain ++ (t.ancestors node).tail := by
  have hedge := parent?_eq mirrors.edges
  induction node using Nat.strongRecOn generalizing chain with
  | ind node ih =>
      cases hparent : t.parent? node with
      | none =>
          rw [NamespaceTree.ancestors_of_parent?_eq_none hparent, List.tail_cons, List.append_nil]
          refine ⟨fun h => ?_, fun h => h ▸ .top ((hedge node).trans hparent)⟩
          cases h with
          | top => rfl
          | up edge => exact absurd (edge.symm.trans ((hedge node).trans hparent)) nofun
      | some parent =>
          obtain ⟨name, hlink⟩ := NamespaceTree.exists_of_parent? hparent
          have hlt := mirrors.sound.lt_of_link? hlink
          have hup : chain ++ t.ancestors parent = chain ++ [parent] ++ (t.ancestors parent).tail := by
            rw [List.append_assoc, List.singleton_append, NamespaceTree.cons_tail_ancestors]
          rw [mirrors.sound.ancestors_of_link? hlink, List.tail_cons, hup]
          refine ⟨fun h => ?_, fun h => .up ((hedge node).trans hparent) ((ih parent hlt).2 h)⟩
          cases h with
          | top last => exact absurd (last.symm.trans ((hedge node).trans hparent)) nofun
          | up edge later =>
              obtain rfl := Option.some.inj (edge.symm.trans ((hedge node).trans hparent))
              exact (ih _ hlt).1 later

theorem ancestors_iff {chain : List NamespaceId} : g.Ancestors node chain ↔ chain = t.ancestors node := by
  rw [Ancestors, mirrors.chains_iff, List.singleton_append, NamespaceTree.cons_tail_ancestors]

/-- The search for a path ends in one way. -/
theorem climbs_iff {names found : List String} :
    g.Climbs node names found ↔ found = names ++ (t.ancestors node).filterMap t.name? := by
  have hedge := parent?_eq mirrors.edges
  have hname := name?_eq mirrors.edges
  induction node using Nat.strongRecOn generalizing names with
  | ind node ih =>
      rcases eq_or_ne node root with rfl | below
      · have hroot : (t.ancestors root).filterMap t.name? = [] := by
          rw [NamespaceTree.ancestors_of_parent?_eq_none rfl]
          rfl
        rw [hroot, List.append_nil]
        refine ⟨fun h => ?_, fun h => h ▸ .arrived⟩
        cases h with
        | arrived => rfl
        | up below => exact absurd rfl below
        | lost below => exact absurd rfl below
      · cases hparent : t.parent? node with
        | none =>
            have hnames : (t.ancestors node).filterMap t.name? = (g.name? node).toList := by
              rw [NamespaceTree.ancestors_of_parent?_eq_none hparent, hname]
              cases hlast : t.name? node <;> simp [hlast]
            rw [hnames]
            refine ⟨fun h => ?_, fun h => h ▸ .lost below ((hedge node).trans hparent)⟩
            cases h with
            | arrived => exact absurd rfl below
            | up _ edge => exact absurd (edge.symm.trans ((hedge node).trans hparent)) nofun
            | lost => rfl
        | some parent =>
            obtain ⟨name, hlink⟩ := NamespaceTree.exists_of_parent? hparent
            have hlt := mirrors.sound.lt_of_link? hlink
            have hnames : names ++ (t.ancestors node).filterMap t.name? =
                names ++ (g.name? node).toList ++ (t.ancestors parent).filterMap t.name? := by
              have hlast : t.name? node = some name := NamespaceTree.name?_of_link? hlink
              rw [mirrors.sound.ancestors_of_link? hlink, hname, List.filterMap_cons_some hlast, hlast,
                Option.toList_some, List.append_assoc, List.singleton_append]
            rw [hnames]
            refine ⟨fun h => ?_, fun h => .up below ((hedge node).trans hparent) ((ih parent hlt).2 h)⟩
            cases h with
            | arrived => exact absurd rfl below
            | up _ edge later =>
                obtain rfl := Option.some.inj (edge.symm.trans ((hedge node).trans hparent))
                exact (ih _ hlt).1 later
            | lost _ last => exact absurd (last.symm.trans ((hedge node).trans hparent)) nofun

theorem pathOf_iff : g.PathOf node path ↔ path = t.pathOf node := by
  rw [NamespaceTree.pathOf, List.filterMap_reverse]
  constructor
  · rintro ⟨names, hclimbs, rfl⟩
    rw [mirrors.climbs_iff.1 hclimbs, List.nil_append]
  · exact fun h => ⟨_, mirrors.climbs_iff.2 rfl, h⟩

end Mirrors

/-! ### Paths -/

/-- The edges form a tree. -/
structure IsTree (g : NamespaceGraph) : Prop where
  /-- The root has no parent. -/
  top : g.incoming root = []
  /-- Every other node has one parent, which is older. -/
  parent : ∀ node < g.size, node ≠ root → ∃ e, g.incoming node = [e] ∧ e.source < node
  /-- Siblings have different names. -/
  siblings : ∀ e ∈ g.edges, ∀ e' ∈ g.edges, e.source = e'.source → e.target ≠ e'.target → e.name ≠ e'.name

/-- Ways up end, and a node is found by the path that is found from it. -/
structure Faithful (g : NamespaceGraph) : Prop where
  ancestors : ∀ node < g.size, ∃! chain, g.Ancestors node chain
  path : ∀ node < g.size, ∃! path, g.PathOf node path
  /-- What is created with a path has this path. -/
  created : ∀ path, (g.createPath path).1 < (g.createPath path).2.size ∧
    (g.createPath path).2.PathOf (g.createPath path).1 path
  found : ∀ path node, g.find? path = some node ↔ node < g.size ∧ g.PathOf node path
  /-- A path that is there is not created again. -/
  again : ∀ path, (g.createPath path).2.createPath path = g.createPath path
  /-- A way down can be gone in two parts. -/
  parts : ∀ start path more, (g.descend? start path).bind (g.descend? · more) =
    g.descend? start (path ++ more)

/-- The tree has the answers of the graph. -/
structure Answers (g : NamespaceGraph) (t : NamespaceTree) : Prop where
  size : g.size = t.size
  down : ∀ start path, g.descend? start path = t.descend? start path
  ancestors : ∀ node chain, g.Ancestors node chain ↔ chain = t.ancestors node
  path : ∀ node path, g.PathOf node path ↔ path = t.pathOf node
  createChild : ∀ parent < g.size, ∀ name, (g.createChild parent name).1 = (t.createChild parent name).1
  createPath : ∀ path, (g.createPath path).1 = (t.createPath path).1
  typesNamed : ∀ home name, g.typesNamed home name = t.typesNamed home name
  homes : g.homes = t.homes

/-- Where a path is there, creating it changes nothing. -/
theorem createPath_of_find? (h : g.find? path = some node) : g.createPath path = (node, g) := by
  have hfrom : ∀ start, g.descend? start path = some node →
      path.foldl (fun (s : NamespaceId × NamespaceGraph) name => s.2.createChild s.1 name) (start, g) =
      (node, g) := by
    clear h
    induction path with
    | nil => exact fun start h => congrArg (·, g) (Option.some.inj h)
    | cons name rest ih =>
        intro start h
        obtain ⟨child, (hchild : g.child? start name = some child), hrest⟩ := Option.bind_eq_some_iff.1 h
        have hsame : g.createChild start name = (child, g) := by rw [NamespaceGraph.createChild, hchild]
        rw [List.foldl_cons, hsame]
        exact ih child hrest
  exact hfrom root h

namespace Mirrors

variable (mirrors : g.Mirrors t)
include mirrors

theorem isTree : g.IsTree where
  top := incoming_eq mirrors.edges root
  parent node hsize below := by
    obtain ⟨parent, name, hlink⟩ := NamespaceTree.exists_link? below (mirrors.size ▸ hsize)
    refine ⟨⟨parent, node, name⟩, ?_, mirrors.sound.lt_of_link? hlink⟩
    rw [incoming_eq mirrors.edges, hlink]
    rfl
  siblings e he e' he' hsource htarget hname := by
    rw [mirrors.edges, mem_edgesOf] at he he'
    obtain ⟨n, hn, hn'⟩ := he
    obtain ⟨m, hm, hm'⟩ := he'
    rw [← hsource, ← hname] at hm
    obtain ⟨hlt, hget⟩ := List.getElem?_eq_some_iff.1 hn
    obtain ⟨hlt', hget'⟩ := List.getElem?_eq_some_iff.1 hm
    obtain rfl : n = m := mirrors.sound.distinct.getElem_inj_iff.1 (hget.trans hget'.symm)
    exact htarget (hn'.trans hm'.symm)

theorem find?_iff : g.find? path = some node ↔ node < g.size ∧ g.PathOf node path := by
  rw [mirrors.find?, mirrors.sound.find?_eq_some_iff, mirrors.size, mirrors.pathOf_iff, eq_comm (a := path)]

/-- A path that was created is found. -/
theorem find?_createPath (path : List String) :
    (g.createPath path).2.find? path = some (g.createPath path).1 := by
  obtain ⟨hnode, -, hmirrors⟩ := mirrors.createPath path
  rw [hmirrors.find?, hnode]
  exact (NamespaceTree.createFrom_spec path t root).2

theorem faithful : g.Faithful where
  ancestors _ _ := ⟨_, mirrors.ancestors_iff.2 rfl, fun _ h => mirrors.ancestors_iff.1 h⟩
  path _ _ := ⟨_, mirrors.pathOf_iff.2 rfl, fun _ h => mirrors.pathOf_iff.1 h⟩
  created path := (mirrors.createPath path).2.2.find?_iff.1 (mirrors.find?_createPath path)
  found _ _ := mirrors.find?_iff
  again path := createPath_of_find? (mirrors.find?_createPath path)
  parts start path more := by
    simp only [mirrors.descend?]
    exact (NamespaceTree.descend?_append start path more).symm

theorem answers : g.Answers t where
  size := mirrors.size
  down := mirrors.descend?
  ancestors _ _ := mirrors.ancestors_iff
  path _ _ := mirrors.pathOf_iff
  createChild _ hparent name := (mirrors.createChild hparent name).1
  createPath path := (mirrors.createPath path).1
  typesNamed := mirrors.types
  homes := mirrors.homes

end Mirrors

/-- Whatever is called for namespaces that are there, the graph is a tree whose ways up end, each namespace
has one path and is what is found by it, and the tree that the calls make has the same answers. -/
theorem Reached.tree_with_paths (h : g.Reached t) : g.IsTree ∧ g.Faithful ∧ g.Answers t :=
  ⟨h.mirrors.isTree, h.mirrors.faithful, h.mirrors.answers⟩

/-- Two paths with a common part, a further child of the root and a type. -/
theorem Reached.tree_with_paths_app :
    let calls : List NamespaceCall :=
      [.path ["App", "Models"], .path ["App", "Views"], .child 0 "Core", .register 2 "User" ⟨7⟩]
    let g := calls.foldl NamespaceGraph.after .empty
    let t := calls.foldl NamespaceTree.after .empty
    g.Reached t ∧ g.size = 5 ∧ g.IsTree ∧ g.Faithful ∧ g.Answers t := by
  intro calls g t
  have h : g.Reached t :=
    .call (c := .register 2 "User" ⟨7⟩) (.call (c := .child 0 "Core") (.call (c := .path ["App", "Views"])
      (.call (c := .path ["App", "Models"]) .new (by decide)) (by decide)) (by decide)) (by decide)
  exact ⟨h, by decide, Reached.tree_with_paths h⟩

end NamespaceGraph

end Graft
