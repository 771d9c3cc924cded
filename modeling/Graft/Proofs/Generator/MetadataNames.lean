/-
Module: Graft.Proofs.Generator.MetadataNames
Purpose: The metadata name of a type, as the text its key is made of, as what it is looked up by, and as the
  name of its artifact.
Main exports: Registry.metadataName, Registry.Regular.lookup?_of_spelled, Registry.Regular.hint_eq,
  Registry.metadataNames_faithful

The key is made on the way from the namespace down to the type, the name of the artifact on the way from the
type up to the namespace.  A lookup has neither way: it tries every place in the name
where the namespace may end.
-/
import Graft.Proofs.Generator.Hints
import Graft.Proofs.Program.Attributes
import Graft.Proofs.Program.Reached
import Graft.Proofs.Program.Spelled

namespace Graft

/-! ### Lookups -/

namespace MetadataName

/-- A segment of a metadata name as it is read. -/
def read (segment : String × Nat) : String × Option Nat :=
  (segment.1, if segment.2 = 0 then none else some segment.2)

end MetadataName

/-- The first number that does from the end of a range is the last one that does. -/
private theorem findSome?_reverse_range {α : Type} {f : Nat → Option α} {count limit : Nat} {a : α}
    (hlt : count < limit) (found : f count = some a) (none_above : ∀ n, count < n → n < limit → f n = none) :
    (List.range limit).reverse.findSome? f = some a := by
  induction limit with
  | zero => cases hlt
  | succ limit ih =>
      rw [List.range_succ, List.reverse_append, List.reverse_singleton, List.singleton_append,
        List.findSome?_cons]
      rcases Nat.lt_succ_iff_lt_or_eq.1 hlt with hless | rfl
      · rw [none_above limit hless (Nat.lt_succ_self _)]
        exact ih hless fun n hn hlimit => none_above n hn (Nat.lt_succ_of_lt hlimit)
      · rw [found]

namespace Registry

variable {r : Registry} {sites : List DeclSite} {s : DeclSite} {home : NamespaceId}

/-- The only type with a number of type parameters is picked by that number. -/
theorem pickArity?_eq_some {keys : List TypeKey} {key : TypeKey} {e : TypeEntry} (mem : key ∈ keys)
    (he : r.get? key = some e)
    (unique : ∀ other ∈ keys, ∀ e', r.get? other = some e' → e'.arity = e.arity → other = key)
    (name : String) :
    r.pickArity? (MetadataName.read (name, e.arity)).2 keys = some key := by
  have hpick : keys.find? (fun k => (r.get? k).map TypeEntry.arity = some e.arity) = some key := by
    refine (find?_eq_some_iff_of_unique fun x hx y hy hxarity hyarity => ?_).2 ⟨mem, by simp [he]⟩
    have hkey : ∀ k ∈ keys, decide ((r.get? k).map TypeEntry.arity = some e.arity) = true → k = key := by
      intro k hk harity
      obtain ⟨e', he', harity⟩ := Option.map_eq_some_iff.1 (of_decide_eq_true harity)
      exact unique k hk e' he' harity
    rw [hkey x hx hxarity, hkey y hy hyarity]
  by_cases hzero : e.arity = 0
  · have hread : (MetadataName.read (name, e.arity)).2 = none := if_pos hzero
    rw [hzero] at hpick
    rw [hread, pickArity?.eq_def]
    dsimp only
    rw [hpick]
    rfl
  · have hread : (MetadataName.read (name, e.arity)).2 = some e.arity := if_neg hzero
    rw [hread, pickArity?.eq_def]
    exact hpick

theorem descend?_append (key : TypeKey) (first rest : List (String × Option Nat)) :
    r.descend? key (first ++ rest) = (r.descend? key first).bind (r.descend? · rest) := by
  induction first generalizing key with
  | nil => rfl
  | cons segment first ih =>
      obtain ⟨name, arity?⟩ := segment
      rw [List.cons_append, descend?, descend?]
      simp only [Option.bind_eq_bind, Option.bind_assoc, ih]

theorem descend?_singleton (key : TypeKey) (segment : String × Option Nat) :
    r.descend? key [segment] =
      r.pickArity? segment.2 ((r.nestedTypes key).filter fun k => (r.get? k).any (·.name = segment.1)) := by
  rw [descend?]
  exact Option.bind_fun_some _

/-- The type that segments name in a namespace. -/
def lookupIn? (r : Registry) (home : NamespaceId) : List (String × Option Nat) → Option TypeKey
  | [] => none
  | (name, arity?) :: rest => do r.descend? (← r.pickArity? arity? (r.spaces.typesNamed home name)) rest

theorem lookupAfter?_eq (segments : List (String × Option Nat)) (count : Nat) :
    r.lookupAfter? segments count =
      (r.spaces.find? ((segments.take count).map Prod.fst)).bind (r.lookupIn? · (segments.drop count)) := by
  rw [lookupAfter?, Option.bind_eq_bind]
  refine Option.bind_congr fun home _ => ?_
  cases segments.drop count <;> rfl

theorem lookupIn?_singleton (segment : String × Option Nat) :
    r.lookupIn? home [segment] = r.pickArity? segment.2 (r.spaces.typesNamed home segment.1) :=
  Option.bind_fun_some _

theorem lookupIn?_append {segments : List (String × Option Nat)} (hne : segments ≠ [])
    (rest : List (String × Option Nat)) :
    r.lookupIn? home (segments ++ rest) = (r.lookupIn? home segments).bind (r.descend? · rest) := by
  cases segments with
  | nil => exact absurd rfl hne
  | cons segment segments =>
      obtain ⟨name, arity?⟩ := segment
      rw [List.cons_append, lookupIn?, lookupIn?]
      simp only [Option.bind_eq_bind, Option.bind_assoc, descend?_append]

namespace Regular

variable (h : r.Regular sites)
include h

/-- A type that no other one holds is found in its namespace. -/
theorem pickArity?_typesNamed {key : TypeKey} {e : TypeEntry} (he : r.get? key = some e)
    (top : e.container? = none) (hhome : r.spaces.find? e.space = some home) :
    r.pickArity? (MetadataName.read (e.name, e.arity)).2 (r.spaces.typesNamed home e.name) = some key := by
  have hstands : ∀ {other}, other ∈ r.spaces.typesNamed home e.name ↔ r.Stands home e.name other :=
    NamespaceTree.mem_typesNamed.trans (h.indexed.mem_residents home e.name _)
  refine pickArity?_eq_some (hstands.2 ⟨e, he, top, rfl, hhome⟩) he
    (fun other hother e' he' harity => ?_) e.name
  obtain ⟨e'', he'', top', hname, hhome'⟩ := hstands.1 hother
  obtain rfl := Option.some.inj (he'.symm.trans he'')
  exact h.declared.distinct h.closed other e' key e he' he (top'.trans top.symm)
    (fun _ => NamespaceTree.find?_inj hhome' hhome) hname harity

/-- A nested type is found in the one that holds it. -/
theorem descend?_holder {key c : TypeKey} {e : TypeEntry} (he : r.get? key = some e)
    (hc : e.container? = some c) :
    r.descend? c [MetadataName.read (e.name, e.arity)] = some key := by
  have hheld : ∀ {other}, other ∈ (r.nestedTypes c).filter (fun k => (r.get? k).any (·.name = e.name)) ↔
      ∃ e', r.get? other = some e' ∧ e'.container? = some c ∧ e'.name = e.name := by
    intro other
    rw [List.mem_filter, h.indexed.mem_nestedTypes, Option.any_eq_true]
    constructor
    · rintro ⟨⟨e', he', hc'⟩, e'', he'', hname⟩
      obtain rfl := Option.some.inj (he'.symm.trans he'')
      exact ⟨e', he', hc', of_decide_eq_true hname⟩
    · rintro ⟨e', he', hc', hname⟩
      exact ⟨⟨e', he', hc'⟩, e', he', decide_eq_true hname⟩
  have hpick := pickArity?_eq_some (hheld.2 ⟨e, he, hc, rfl⟩) he (fun other hother e' he' harity => by
    obtain ⟨e'', he'', hc', hname⟩ := hheld.1 hother
    obtain rfl := Option.some.inj (he'.symm.trans he'')
    refine h.declared.distinct h.closed other e' key e he' he (hc'.trans hc.symm)
      (fun hnone => ?_) hname harity
    cases hc'.symm.trans hnone) e.name
  rw [descend?_singleton]
  exact hpick

/-- The types around a declared type and the type itself are found one in the other. -/
theorem lookupIn?_chain (containers : List TypeDecl) :
    ∀ {s : DeclSite}, r.Stood sites s → s.containers = containers → r.spaces.find? s.path = some home →
      r.lookupIn? home (s.chain.map MetadataName.read) = some s.key := by
  induction containers using List.reverseRecOn with
  | nil =>
      intro s stood htop hhome
      obtain ⟨e, he, at_s⟩ := h.standsAt stood
      have hpick := h.pickArity?_typesNamed he (at_s.container?.trans (DeclSite.container?_of_top htop))
        (at_s.space ▸ hhome)
      rw [at_s.name, at_s.arity] at hpick
      rw [DeclSite.chain_of_top htop, List.map_singleton, lookupIn?_singleton]
      exact hpick
  | append_singleton outer d ih =>
      intro s stood hnested hhome
      obtain ⟨e, he, at_s⟩ := h.standsAt stood
      have hdescend := h.descend?_holder he (at_s.container?.trans (DeclSite.container?_of_nested hnested))
      rw [at_s.name, at_s.arity] at hdescend
      rw [DeclSite.chain_of_nested hnested, List.map_append, lookupIn?_append (by simp [DeclSite.chain]),
        ih (h.stood_parent stood hnested) rfl hhome]
      exact hdescend

/-- A full name is looked up with its own namespace: no more of its segments name one. -/
theorem findSome?_fullName (stood : r.Stood sites s) :
    (List.range (s.fullName.map MetadataName.read).length).reverse.findSome?
      (r.lookupAfter? (s.fullName.map MetadataName.read)) = some s.key := by
  have hpath : (s.path.map (·, 0)).map MetadataName.read = s.path.map (·, none) := by
    rw [List.map_map]
    rfl
  have hnames : ∀ list : List (String × Nat),
      (list.map MetadataName.read).map Prod.fst = list.map Prod.fst := by
    intro list
    rw [List.map_map]
    rfl
  have hsegments : s.fullName.map MetadataName.read =
      s.path.map (·, none) ++ s.chain.map MetadataName.read := by
    rw [DeclSite.fullName, List.map_append, hpath]
  obtain ⟨home, hhome⟩ := Option.isSome_iff_exists.1 stood.surrounds.housed
  -- with more segments than its namespace has, the name of a type would be that of a namespace
  have hlt : s.path.length < (s.fullName.map MetadataName.read).length := by
    rw [hsegments]
    simp [DeclSite.chain]
  refine findSome?_reverse_range hlt ?_ fun n hn hlimit => ?_
  · rw [lookupAfter?_eq, hsegments, List.take_left' (by simp), List.drop_left' (by simp), List.map_map]
    rw [show s.path.map (Prod.fst ∘ fun x => (x, (none : Option Nat))) = s.path from List.map_id _, hhome]
    exact h.lookupIn?_chain s.containers stood rfl hhome
  · have htake : ((s.fullName.map MetadataName.read).take n).map Prod.fst =
        s.path ++ (s.chain.take (n - s.path.length)).map Prod.fst := by
      rw [hsegments, List.take_append, List.take_of_length_le (by simp; omega), List.map_append,
        List.map_map]
      rw [show s.path.map (Prod.fst ∘ fun x => (x, (none : Option Nat))) = s.path from List.map_id _,
        List.length_map, ← List.map_take, hnames]
    have hcount : n - s.path.length ≤ s.chain.length := by
      rw [hsegments, List.length_append, List.length_map, List.length_map] at hlimit
      omega
    rw [lookupAfter?_eq, htake, h.not_space_take s.containers stood rfl _ (by omega) hcount]
    rfl

end Regular

/-! ### Metadata names -/

/-- The segments of the metadata name of a type: its namespace, the types around it, the outermost first, and
the type itself, each type with its number of type parameters. -/
def metadataSegments (r : Registry) (key : TypeKey) : List String :=
  (r.fullName key).map fun segment => MetadataName.segment segment.1 segment.2

/-- The metadata name of a type with points between the segments. -/
def metadataName (r : Registry) (key : TypeKey) : String := ".".intercalate (r.metadataSegments key)

namespace Regular

variable (h : r.Regular sites) {key : TypeKey} {e : TypeEntry}
include h

/-- The key of a type is made of its metadata name. -/
theorem key_eq (he : r.get? key = some e) : key = .ofName (r.metadataName key) := by
  obtain ⟨s, stood, rfl, -⟩ := h.exists_stood he
  rw [metadataName, metadataSegments, h.fullName_eq stood, ← DeclSite.identity_eq (h.named s stood.mem)]
  rfl

/-- The types around a declaration are declared as well. -/
theorem decl_of_mem_containers (containers : List TypeDecl) :
    ∀ {s : DeclSite}, s ∈ sites → s.containers = containers → ∀ d ∈ containers, ∃ u ∈ sites, u.decl = d := by
  induction containers using List.reverseRecOn with
  | nil => exact fun _ _ d hd => (List.not_mem_nil hd).elim
  | append_singleton outer last ih =>
      intro s hs hnested d hd
      have hparent := h.closed.parent s hs outer last hnested
      rcases List.mem_append.1 hd with hd | hd
      · exact ih hparent rfl d hd
      · exact ⟨_, hparent, (List.mem_singleton.1 hd).symm⟩

/-- The segments of a metadata name are read as the full name that they were made of. -/
theorem parse_of_spelled (small : ∀ s ∈ sites, s.decl.arity < 1 <<< 64) (stood : r.Stood sites s)
    {text : String} (spelled : MetadataName.Spelled (r.metadataSegments s.key) text) :
    MetadataName.parse text = s.fullName.map MetadataName.read := by
  have words := (h.named s stood.mem).fullName
  have hsmall : ∀ segment ∈ s.fullName, segment.2 < 1 <<< 64 := by
    intro segment hsegment
    rcases List.mem_append.1 hsegment with hsegment | hsegment
    · obtain ⟨name, -, rfl⟩ := List.mem_map.1 hsegment
      exact Nat.two_pow_pos 64
    · obtain ⟨d, hd, rfl⟩ := List.mem_map.1 hsegment
      rcases List.mem_append.1 hd with hd | hd
      · obtain ⟨u, hu, rfl⟩ := h.decl_of_mem_containers s.containers stood.mem rfl d hd
        exact small u hu
      · exact List.mem_singleton.1 hd ▸ small s stood.mem
  rw [metadataSegments, h.fullName_eq stood] at spelled
  have plain : ∀ text ∈ s.fullName.map fun segment => MetadataName.segment segment.1 segment.2,
      MetadataName.Plain text := by
    intro text htext
    obtain ⟨segment, hsegment, rfl⟩ := List.mem_map.1 htext
    exact MetadataName.plain_segment (words segment hsegment) segment.2
  rw [MetadataName.parse_of_spelled spelled plain, List.map_map]
  exact List.map_congr_left fun segment hsegment =>
    MetadataName.splitArity_segment (words segment hsegment) (hsmall segment hsegment)

/-- A type is found by its metadata name, with points or plus signs between the segments. -/
theorem lookup?_of_spelled (small : ∀ s ∈ sites, s.decl.arity < 1 <<< 64) (he : r.get? key = some e)
    {text : String} (spelled : MetadataName.Spelled (r.metadataSegments key) text) :
    r.lookup? text = some key := by
  obtain ⟨s, stood, rfl, -⟩ := h.exists_stood he
  rw [lookup?, h.parse_of_spelled small stood spelled]
  exact h.findSome?_fullName stood

/-- A type is found by its metadata name with points alone. -/
theorem lookup?_metadataName (small : ∀ s ∈ sites, s.decl.arity < 1 <<< 64) (he : r.get? key = some e) :
    r.lookup? (r.metadataName key) = some key := by
  have hne : r.metadataSegments key ≠ [] := by
    obtain ⟨s, stood, rfl, -⟩ := h.exists_stood he
    rw [metadataSegments, h.fullName_eq stood]
    exact mt List.map_eq_nil_iff.1 s.fullName_ne_nil
  exact h.lookup?_of_spelled small he (MetadataName.spelled_intercalate hne (.inl rfl))

end Regular

end Registry

/-! ### Names of artifacts -/

namespace TypeEntry

variable {e e' : TypeEntry}

theorem segment_partialHeader (hbare : e'.bare = e.bare) :
    e'.partialHeader.segment = MetadataName.segment e.name e.arity := by
  have hname : e'.name = e.name := (congrArg TypeEntry.name hbare :)
  have hparams : e'.typeParams = e.typeParams := (congrArg TypeEntry.typeParams hbare :)
  rw [TypeHeader.segment, partialHeader, hname, hparams]
  rfl

end TypeEntry

namespace Registry.Regular

variable {r : Registry} {sites : List DeclSite} (h : r.Regular sites) {m : SourceModel} (knows : m.Knows r)
  {key : TypeKey} {e : TypeEntry}
include h knows

/-- The headers around a type and its own one have the names in its chain. -/
theorem segments_containerHeaders (containers : List TypeDecl) :
    ∀ {s : DeclSite}, r.Stood sites s → s.containers = containers → ∀ {e : TypeEntry},
      m.entry? s.key = some e → (m.containerHeaders e ++ [e.partialHeader]).map (·.segment) =
        s.chain.map fun segment => MetadataName.segment segment.1 segment.2 := by
  have hheaders : ∀ {s : DeclSite}, r.Stood sites s → ∀ {e : TypeEntry}, m.entry? s.key = some e →
      e.container? = s.container? ∧ (m.containerHeaders e ++ [e.partialHeader]).map (·.segment) =
        (m.containerHeaders e).map (·.segment) ++ [MetadataName.segment s.decl.name.name s.decl.arity] := by
    intro s stood e he
    obtain ⟨old, hold, at_s⟩ := h.standsAt stood
    obtain ⟨e', he', hbare⟩ := knows.entry hold
    obtain rfl := Option.some.inj (he.symm.trans he')
    refine ⟨(congrArg TypeEntry.container? hbare).trans at_s.container?, ?_⟩
    rw [List.map_append, List.map_singleton, TypeEntry.segment_partialHeader hbare, at_s.name, at_s.arity]
  induction containers using List.reverseRecOn with
  | nil =>
      intro s stood htop e he
      obtain ⟨hcontainer, hsegments⟩ := hheaders stood he
      rw [hsegments, SourceModel.containerHeaders_of_top
        (hcontainer.trans (DeclSite.container?_of_top htop)), DeclSite.chain_of_top htop]
      rfl
  | append_singleton outer d ih =>
      intro s stood hnested e he
      obtain ⟨hcontainer, hsegments⟩ := hheaders stood he
      have hparent := h.stood_parent stood hnested
      obtain ⟨old, hold, -⟩ := h.standsAt hparent
      obtain ⟨holder, hholder, -⟩ := knows.entry hold
      rw [hsegments, (knows.contained h.indexed).containerHeaders_within
          (hcontainer.trans (DeclSite.container?_of_nested hnested)) hholder,
        ih hparent rfl hholder, DeclSite.chain_of_nested hnested, List.map_append]
      rfl

/-- The segments of a class are those of the metadata name of its type. -/
theorem segments_eq (he : m.entry? key = some e) {types : WellKnownTypes} {result : SynthesizedClass}
    (hresult : m.synthesizeType types e = .ok result) : result.segments = r.metadataSegments key := by
  obtain ⟨old, hold, hbare⟩ := knows.registered he
  obtain ⟨s, stood, rfl, -⟩ := h.exists_stood hold
  obtain ⟨old', hold', at_s⟩ := h.standsAt stood
  obtain rfl := Option.some.inj (hold.symm.trans hold')
  have hspace : e.space = s.path := (congrArg TypeEntry.space hbare).trans at_s.space
  obtain ⟨hrspace, hcontainers, hname, hparams⟩ := SourceModel.fields_of_synthesizeType hresult
  have hown : result.header.segment = e.partialHeader.segment := by
    rw [TypeHeader.segment, TypeHeader.segment, hname, hparams]
    rfl
  have hheaders : result.headers.map (·.segment) = (m.containerHeaders e ++ [e.partialHeader]).map
      (·.segment) := by
    rw [SynthesizedClass.headers, hcontainers, List.map_append, List.map_append, List.map_singleton, hown]
    rfl
  rw [SynthesizedClass.segments, hheaders, h.segments_containerHeaders knows s.containers stood rfl he,
    hrspace, hspace, metadataSegments, h.fullName_eq stood, DeclSite.fullName, List.map_append, List.map_map]
  exact congrArg (· ++ _) (List.map_id _).symm

/-- The name of an artifact is the metadata name of its type, with the suffix of the settings. -/
theorem hint_eq (he : m.entry? key = some e) {config : GeneratorConfig} (naming : config.naming = .qualified)
    {types : WellKnownTypes} {result : SynthesizedClass} (hresult : m.synthesizeType types e = .ok result) :
    result.hint config = r.metadataName key ++ config.suffix := by
  rw [SynthesizedClass.hint, naming, h.segments_eq knows he hresult]
  rfl

end Registry.Regular

namespace Registry

/-- In a registry that is reached from trees that were read without errors, where no two of the full names
have one digest, no type is named like a namespace, and the numbers of type parameters are machine words, the
metadata name of a registered type is the text that its key is made of; the type is what is found by it, with
points or plus signs between the segments; and it is the name of an artifact up to the suffix, so that the
artifacts of different types have different names. -/
theorem metadataNames_faithful (trees : List SourceTree)
    (hread : ∀ t ∈ trees, ∃ id d, SourceTree.parse id d = .ok t) (distinct : ∀ s ∈ trees.flatMap (·.sites),
      ∀ u ∈ trees.flatMap (·.sites), s.key = u.key → s.identity = u.identity)
    (small : ∀ s ∈ trees.flatMap (·.sites), s.decl.arity < 1 <<< 64) (r : Registry)
    (reached : r.Reached trees) (apart : r.Apart) :
    (∀ key e, r.get? key = some e → e.key = key ∧ key = .ofName (r.metadataName key) ∧
      r.lookup? (r.metadataName key) = some key ∧
      ∀ text, MetadataName.Spelled (r.metadataSegments key) text → r.lookup? text = some key) ∧
    ∀ (m : SourceModel) (config : GeneratorConfig), m.Knows r → config.naming = .qualified →
      (∀ key e types result, m.entry? key = some e → m.synthesizeType types e = .ok result →
        result.hint config = r.metadataName key ++ config.suffix) ∧
      ∀ key e types result other e' types' result', m.entry? key = some e →
        m.synthesizeType types e = .ok result →
        m.entry? other = some e' → m.synthesizeType types' e' = .ok result' → key ≠ other →
        result.hint config ≠ result'.hint config := by
  have regular := reached.regular hread distinct apart
  refine ⟨fun key e he => ⟨regular.indexed.key key e he, regular.key_eq he,
    regular.lookup?_metadataName small he, fun text spelled => regular.lookup?_of_spelled small he spelled⟩,
    fun m config knows naming => ⟨?_, ?_⟩⟩
  · exact fun key e types result he hresult => regular.hint_eq knows he naming hresult
  · intro key e types result other e' types' result' he hresult he' hresult' hne hint
    rw [regular.hint_eq knows he naming hresult, regular.hint_eq knows he' naming hresult'] at hint
    have hname : r.metadataName key = r.metadataName other := by
      have htext := congrArg String.toList hint
      rw [String.toList_append, String.toList_append] at htext
      exact String.toList_inj.1 (List.append_cancel_right htext)
    obtain ⟨old, hold, -⟩ := knows.registered he
    obtain ⟨old', hold', -⟩ := knows.registered he'
    exact hne ((regular.key_eq hold).trans
      ((congrArg TypeKey.ofName hname).trans (regular.key_eq hold').symm))

/-! ### Sample names -/

theorem apart_of_entries {r : Registry} (nodup : r.types.keys.Nodup)
    (h : ∀ entry ∈ r.types.entries, r.spaces.find? entry.2.qualified.segments = none) : r.Apart :=
  fun key e he => h (key, e) ((Assoc.get?_eq_some_iff nodup).1 he)

/-- Whether the declarations in a text have names that can be told apart, and the
segments of a type's name. -/
def segmentsIn? (text : String) (key : TypeKey) : Option (Bool × List String) :=
  (SourceTree.parse ⟨0⟩ ⟨"a.cs", text, .source⟩).toOption.map fun t =>
    let r := (Registration.ofTrees [t]).registry
    (decide ((∀ s ∈ t.sites, ∀ u ∈ t.sites, s.key = u.key → s.identity = u.identity) ∧
      (∀ s ∈ t.sites, s.decl.arity < 1 <<< 64) ∧
      (∀ entry ∈ r.types.entries, r.spaces.find? entry.2.qualified.segments = none) ∧ (r.get? key).isSome),
      r.metadataSegments key)

theorem of_segmentsIn?_eq_some {text : String} {key : TypeKey} {segments : List String}
    (h : segmentsIn? text key = some (true, segments)) :
    ∃ t, SourceTree.parse ⟨0⟩ ⟨"a.cs", text, .source⟩ = .ok t ∧
      (∀ s ∈ t.sites, ∀ u ∈ t.sites, s.key = u.key → s.identity = u.identity) ∧
      (∀ s ∈ t.sites, s.decl.arity < 1 <<< 64) ∧ (Registration.ofTrees [t]).registry.Apart ∧
      (∃ e, (Registration.ofTrees [t]).registry.get? key = some e) ∧
      (Registration.ofTrees [t]).registry.metadataSegments key = segments := by
  unfold segmentsIn? at h
  obtain ⟨t, hparse, h⟩ := Option.map_eq_some_iff.1 h
  obtain ⟨hholds, hsegments⟩ := Prod.mk.inj h
  obtain ⟨distinct, small, apart, there⟩ := of_decide_eq_true hholds
  exact ⟨t, eq_ok_of_toOption hparse, distinct, small,
    apart_of_entries (Registration.indexed_ofTrees [t]).nodup_keys apart, Option.isSome_iff_exists.1 there,
    hsegments⟩

/-- A class in a generic class, beside a class that is named like the generic one. -/
def innerClass : String := "namespace N.M\x7bclass A<T>\x7bclass B\x7b\x7d\x7dclass A\x7b\x7d\x7d"

/-- The inner class is found with a point or a plus sign before its name, and its artifact is named after the
classes and namespaces around it. -/
theorem metadataNames_faithful_innerClass :
    ∃ t e result, SourceTree.parse ⟨0⟩ ⟨"a.cs", innerClass, .source⟩ = .ok t ∧
      (Registration.ofTrees [t]).registry.get? (.ofName "N.M.A`1.B") = some e ∧
      (Registration.ofTrees [t]).registry.lookup? "N.M.A`1.B" = some (.ofName "N.M.A`1.B") ∧
      (Registration.ofTrees [t]).registry.lookup? "N.M.A`1+B" = some (.ofName "N.M.A`1.B") ∧
      (Compilation.model ⟨[t], (Registration.ofTrees [t]).registry, .empty⟩).synthesizeType
        ⟨.empty, .empty⟩ e = .ok result ∧
      result.hint .standard = "N.M.A`1.B.g.cs" := by
  obtain ⟨t, hparse, distinct, small, apart, ⟨e, he⟩, hsegments⟩ := of_segmentsIn?_eq_some
    (show segmentsIn? innerClass (.ofName "N.M.A`1.B") =
    some (true, ["N", "M", "A`1", "B"]) by decide +kernel)
  have hsites : [t].flatMap (·.sites) = t.sites := List.append_nil _
  have hread : ∀ u ∈ [t], ∃ id d, SourceTree.parse id d = .ok u :=
    fun u hu => ⟨_, _, List.mem_singleton.1 hu ▸ hparse⟩
  obtain ⟨hnames, hhints⟩ := metadataNames_faithful [t] hread (hsites ▸ distinct) (hsites ▸ small) _
    (Registration.reached_ofTrees hread (List.pairwise_singleton _ _)) apart
  have hlookup := (hnames _ e he).2.2.2
  rw [hsegments] at hlookup
  have hnested : ∀ separator, separator = "." ∨ separator = "+" →
      MetadataName.Spelled ["N", "M", "A`1", "B"]
      ("N" ++ "." ++ ("M" ++ "." ++ ("A`1" ++ separator ++ "B"))) :=
    fun _ mark => .cons "N" (.inl rfl) (.cons "M" (.inl rfl) (.cons "A`1" mark (.last "B")))
  have hplain : e.attributes = [] := Registration.plain_ofTrees [t] _ e he
  obtain ⟨result, hresult⟩ : ∃ result,
      (Compilation.model ⟨[t], (Registration.ofTrees [t]).registry, .empty⟩).synthesizeType
        ⟨.empty, .empty⟩ e = .ok result := by
    rw [SourceModel.synthesizeType, hplain]
    exact ⟨_, rfl⟩
  refine ⟨t, e, result, hparse, he, hlookup _ (hnested "." (.inl rfl)), hlookup _ (hnested "+" (.inr rfl)),
    hresult, ?_⟩
  rw [(hhints _ .standard (fun _ => rfl) rfl).1 _ e _ result he hresult, metadataName, hsegments]
  rfl

end Registry

end Graft
