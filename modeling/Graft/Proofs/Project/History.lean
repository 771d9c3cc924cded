/-
Module: Graft.Proofs.Project.History
Purpose: What a project holds and answers after any run of requests.
Main exports: Project.Request, Project.Consistent, Project.Consistent.afterAll,
  Project.files_afterAll, Project.history_independent

A project answers from what it has kept: places and digests of files, the files that have changed, the
last compilation.  `Consistent` says what these have to do with the files.  It holds of a project
without files and every request keeps it, whether it succeeds or fails.
-/
import Mathlib.Data.List.Nodup
import Graft.Project

namespace Graft

namespace Project

/-! ### Requests -/

/-- What can be asked of a project. -/
inductive Request where
  | add (d : Document)
  | update (name text : String)
  | remove (name : String)
  | build
  | generate
  | cancel
deriving DecidableEq, Repr, Inhabited

/-- The text that comes with a request. -/
def Request.text? : Request → Option String
  | add d => some d.text
  | update _ text => some text
  | remove _ | build | generate | cancel => none

/-- The project that an operation leaves, which is the same one if it fails. -/
def orElse {α : Type} (p : Project) : Except ProjectError (α × Project) → Project
  | .ok (_, q) => q
  | .error _ => p

/-- The project after a request. -/
def after (p : Project) : Request → Project
  | .add d => p.orElse (p.add d)
  | .update name text => p.orElse (p.update name text)
  | .remove name => (p.remove name).2
  | .build => p.orElse p.build
  | .generate => p.generate.2
  | .cancel => p.cancel

/-- The project after requests in order. -/
def afterAll (p : Project) (requests : List Request) : Project := requests.foldl after p

/-- A list of documents after a request, as the request itself says. -/
def Request.edit (documents : List Document) : Request → List Document
  | add d =>
      match documents.find? (·.name = d.name) with
      | none => documents ++ [d]
      | some existing =>
          if existing.origin = d.origin then
            documents.map fun e => if e.name = d.name then { e with text := d.text } else e
          else documents
  | update name text => documents.map fun e => if e.name = name then { e with text } else e
  | remove name => documents.filter (·.name ≠ name)
  | build | generate | cancel => documents

/-- A project to which the files of another one are added in their order.  Nothing else is kept but the
configuration and whether passes are cancelled. -/
def renewed (p : Project) : Project :=
  { empty p.config with cancelled := p.cancelled }.afterAll (p.files.map .add)

/-! ### What a project keeps -/

/-- No two files have one name, and the places are those of the files. -/
structure Indexed (p : Project) : Prop where
  nodup : (p.files.map (·.name)).Nodup
  places : ∀ name place, p.places.get? name = some place ↔
    (p.files[place]?).map (·.name) = some name

/-- Only the files and their places matter. -/
theorem Indexed.of_eq {p q : Project} (indexed : p.Indexed) (files : q.files = p.files)
    (places : q.places = p.places) : q.Indexed :=
  ⟨by rw [files]; exact indexed.nodup, by rw [files, places]; exact indexed.places⟩

/-- What is kept besides the files is what follows from them. -/
structure Consistent (p : Project) : Prop where
  indexed : p.Indexed
  digests : ∀ d ∈ p.files, p.digests.get? d.name = some (Digest.ofString d.text)
  compiled : p.dirty = [] → ∀ c, p.compilation? = some c → Compilation.build p.files = .ok c

/-- A project without files is consistent. -/
theorem consistent_empty (config : GeneratorConfig) : (empty config).Consistent where
  indexed := ⟨List.nodup_nil, by simp [empty]⟩
  digests := by simp [empty]
  compiled := by simp [empty]

@[simp] theorem touch_dirty_ne_nil (p : Project) (name : String) : (p.touch name).dirty ≠ [] := by
  simp only [touch]
  split
  · exact List.ne_nil_of_mem ‹_›
  · simp

namespace Indexed

variable {p : Project}

/-- A file is found by its name at its place. -/
theorem find?_eq_some_iff (indexed : p.Indexed) {name : String} {place : Nat} {d : Document} :
    p.find? name = some (place, d) ↔ p.files[place]? = some d ∧ d.name = name := by
  simp only [find?, Option.bind_eq_bind, Option.bind_eq_some_iff, Option.pure_def, Option.some.injEq,
    Prod.mk.injEq]
  constructor
  · rintro ⟨found, hplace, e, hfile, rfl, rfl⟩
    have hname := (indexed.places name found).1 hplace
    rw [hfile] at hname
    exact ⟨hfile, Option.some.inj hname⟩
  · rintro ⟨hfile, rfl⟩
    exact ⟨place, (indexed.places d.name place).2 (by rw [hfile]; rfl), d, hfile, rfl, rfl⟩

/-- No file is found exactly if none has the name. -/
theorem find?_eq_none_iff (indexed : p.Indexed) {name : String} :
    p.find? name = none ↔ ∀ d ∈ p.files, d.name ≠ name := by
  constructor
  · intro hnone d hd hname
    obtain ⟨place, hplace⟩ := List.mem_iff_getElem?.1 hd
    rw [indexed.find?_eq_some_iff.2 ⟨hplace, hname⟩] at hnone
    cases hnone
  · intro habsent
    cases hfound : p.find? name with
    | none => rfl
    | some found =>
        obtain ⟨hfile, hname⟩ := indexed.find?_eq_some_iff.1 hfound
        exact absurd hname (habsent _ (List.mem_of_getElem? hfile))

/-- The indexed project with one more file. -/
theorem append (indexed : p.Indexed) {d : Document} (absent : ∀ e ∈ p.files, e.name ≠ d.name) :
    { p with files := p.files ++ [d], places := p.places.insert d.name p.files.length }.Indexed where
  nodup := by
    rw [List.map_append, List.nodup_append]
    refine ⟨indexed.nodup, by simp, ?_⟩
    intro a ha b hb
    obtain ⟨e, he, rfl⟩ := List.mem_map.1 ha
    obtain rfl : b = d.name := by simpa using hb
    exact absent e he
  places := by
    intro name place
    rw [Assoc.get?_insert]
    by_cases hname : name = d.name
    · rw [if_pos hname, hname, List.getElem?_append]
      split
      · rename_i hlt
        rw [List.getElem?_eq_getElem hlt]
        refine ⟨fun h => ?_, fun h => ?_⟩
        · exact absurd (Option.some.inj h) (by omega)
        · exact absurd (Option.some.inj h) (absent _ (List.getElem_mem hlt))
      · rename_i hge
        by_cases hlast : place = p.files.length
        · simp [hlast]
        · have : place - p.files.length ≠ 0 := by omega
          simp [this, eq_comm, hlast]
    · rw [if_neg hname, indexed.places, List.getElem?_append]
      split
      · exact Iff.rfl
      · rename_i hge
        rw [List.getElem?_eq_none (by omega), List.getElem?_singleton]
        split <;> simp [Ne.symm hname]

/-- The indexed project with another file of the same name in a file's place. -/
theorem set (indexed : p.Indexed) {place : Nat} {d : Document} (file : p.files[place]? = some d)
    (e : Document) (name : e.name = d.name) :
    { p with files := p.files.set place e }.Indexed := by
  have hnames : (p.files.set place e).map (·.name) = p.files.map (·.name) := by
    rw [List.map_set, name]
    refine List.ext_getElem? fun i => ?_
    rw [List.getElem?_set]
    split
    · rename_i hi
      subst hi
      split <;> simp_all
    · rfl
  refine ⟨by rw [hnames]; exact indexed.nodup, fun other i => ?_⟩
  rw [indexed.places, ← List.getElem?_map, ← List.getElem?_map, hnames]

/-- A new text in a file's place is a new text for the file with the name. -/
theorem set_eq_map (indexed : p.Indexed) {place : Nat} {d : Document}
    (file : p.files[place]? = some d) (text : String) :
    p.files.set place { d with text } =
      p.files.map fun e => if e.name = d.name then { e with text } else e := by
  have hplace := (indexed.places d.name place).2 (by rw [file]; rfl)
  refine List.ext_getElem? fun i => ?_
  rw [List.getElem?_set, List.getElem?_map]
  split
  · rename_i hi
    subst hi
    rw [if_pos (List.getElem?_eq_some_iff.1 file).1, file]
    simp
  · rename_i hi
    cases hother : p.files[i]? with
    | none => rfl
    | some e =>
        have hname : e.name ≠ d.name := fun hname =>
          hi (Option.some.inj (hplace.symm.trans
            ((indexed.places d.name i).2 (by rw [hother, ← hname]; rfl))))
        simp [hname]

/-- To leave out a place is to leave out the file with the name. -/
theorem eraseIdx_eq_filter (indexed : p.Indexed) {name : String} {place : Nat}
    (found : p.places.get? name = some place) :
    p.files.eraseIdx place = p.files.filter (·.name ≠ name) := by
  have hfile := (indexed.places name place).1 found
  have hnodup := indexed.nodup
  clear found indexed
  generalize p.files = files at *
  induction files generalizing place with
  | nil => simp
  | cons d rest ih =>
      rw [List.map_cons, List.nodup_cons] at hnodup
      cases place with
      | zero =>
          obtain rfl : d.name = name := by simpa using hfile
          have hrest : ∀ e ∈ rest, e.name ≠ d.name := fun e he hname =>
            hnodup.1 (List.mem_map.2 ⟨e, he, hname⟩)
          rw [List.eraseIdx_zero, List.tail_cons, List.filter_cons_of_neg (by simp),
            List.filter_eq_self.2 (by simpa using hrest)]
      | succ place =>
          have hrest : (rest[place]?).map (·.name) = some name := by simpa using hfile
          have hname : d.name ≠ name := by
            obtain ⟨e, he, rfl⟩ := Option.map_eq_some_iff.1 hrest
            exact fun h => hnodup.1 (List.mem_map.2 ⟨e, List.mem_of_getElem? he, h.symm⟩)
          rw [List.eraseIdx_cons_succ, List.filter_cons_of_pos (by simpa using hname),
            ih hrest hnodup.2]

/-- The indexed project without one of its files. -/
theorem eraseIdx (indexed : p.Indexed) {name : String} {place : Nat}
    (found : p.places.get? name = some place) :
    { p with files := p.files.eraseIdx place,
             places := (p.places.erase name).mapValues (placeAfter place) }.Indexed where
  nodup := indexed.nodup.sublist ((List.eraseIdx_sublist _ _).map _)
  places := by
    have hgone := (indexed.places name place).1 found
    intro other i
    rw [Assoc.get?_mapValues, Assoc.get?_erase, List.getElem?_eraseIdx]
    by_cases hother : other = name
    · subst hother
      have hnone : ∀ j, (p.files[j]?).map (·.name) = some other → j = place := fun j hj =>
        Option.some.inj (((indexed.places other j).2 hj).symm.trans found)
      rw [if_pos rfl]
      split
      · refine ⟨fun h => by simp at h, fun h => ?_⟩
        have := hnone _ h
        omega
      · refine ⟨fun h => by simp at h, fun h => ?_⟩
        have := hnone _ h
        omega
    · rw [if_neg hother, Option.map_eq_some_iff]
      constructor
      · rintro ⟨j, hj, rfl⟩
        have hfile := (indexed.places other j).1 hj
        have hne : j ≠ place := by
          rintro rfl
          exact hother (Option.some.inj (hfile.symm.trans hgone))
        simp only [placeAfter]
        split
        · rw [if_neg (by omega), show j - 1 + 1 = j by omega]
          exact hfile
        · rw [if_pos (by omega)]
          exact hfile
      · intro h
        split at h
        · exact ⟨i, (indexed.places other i).2 h, if_neg (by omega)⟩
        · exact ⟨i + 1, (indexed.places other (i + 1)).2 h, if_pos (by omega)⟩

end Indexed

/-! ### What requests do -/

section

variable {p : Project}

/-- A file with a new name is added after the others. -/
theorem add_of_absent (indexed : p.Indexed) {d : Document}
    (absent : ∀ e ∈ p.files, e.name ≠ d.name) :
    p.add d = .ok (true, { p with
      files := p.files ++ [d], places := p.places.insert d.name p.files.length }.retext d) := by
  rw [add, indexed.find?_eq_none_iff.2 absent]

/-- A file whose name is there gets its place, unless it is of another origin or has the text of which
the digest is kept. -/
theorem add_of_file (indexed : p.Indexed) {place : Nat} {d e : Document}
    (file : p.files[place]? = some e) (name : e.name = d.name) :
    p.add d =
      if e.origin ≠ d.origin then .error (.kindConflict d.name e.origin)
      else if p.digests.get? d.name = some (Digest.ofString d.text) then .ok (false, p)
      else .ok (true, { p with
        files := p.files.set place { e with text := d.text } }.retext d) := by
  rw [add, indexed.find?_eq_some_iff.2 ⟨file, name⟩]

/-- A file gets a new text in the way in which it is added again. -/
theorem update_of_file (indexed : p.Indexed) {place : Nat} {name text : String} {e : Document}
    (file : p.files[place]? = some e) (hname : e.name = name) :
    p.update name text = p.add { e with text } := by
  subst hname
  rw [update, indexed.find?_eq_some_iff.2 ⟨file, rfl⟩]

/-- A file that is not there gets no new text. -/
theorem update_of_absent (indexed : p.Indexed) {name text : String}
    (absent : ∀ e ∈ p.files, e.name ≠ name) :
    p.update name text = .error (.fileNotFound name) := by
  rw [update, indexed.find?_eq_none_iff.2 absent]

/-- What is built is what is compiled afterwards, and nothing else is new but that no file has changed
since then. -/
theorem build_frame {c : Compilation} {q : Project} (built : p.build = .ok (c, q)) :
    q = { p with dirty := [], compilation? := some c } := by
  have hrecompile : p.recompile = .ok (c, q) → q = { p with dirty := [], compilation? := some c } := by
    intro h
    rw [recompile] at h
    split at h
    · cases h
    · cases h
      rfl
  rw [build] at built
  split at built
  · cases built
  split at built
  · rename_i d hd
    split at built
    · exact hrecompile built
    · rename_i hpending
      have hdirty : p.dirty = [] := by simpa [isPending] using hpending
      cases built
      simp only [← hdirty, ← hd]
  · exact hrecompile built

/-- A project without kept digests of files that have other texts is consistent once it has a new text
for one of its files. -/
theorem consistent_retext (indexed : p.Indexed) {d : Document}
    (same : ∀ e ∈ p.files, e.name = d.name → e.text = d.text)
    (others : ∀ e ∈ p.files, e.name ≠ d.name →
      p.digests.get? e.name = some (Digest.ofString e.text)) : (p.retext d).Consistent where
  indexed := indexed.of_eq rfl rfl
  digests := by
    intro e he
    change (p.digests.insert d.name (Digest.ofString d.text)).get? e.name = _
    rw [Assoc.get?_insert]
    split
    · rename_i hname
      rw [same e he hname]
    · rename_i hname
      exact others e he hname
  compiled := fun hdirty => absurd hdirty (touch_dirty_ne_nil _ _)

end

namespace Consistent

variable {p : Project}

/-- Adding a file keeps consistency. -/
theorem add (consistent : p.Consistent) (d : Document) :
    (p.orElse (p.add d)).Consistent := by
  have indexed := consistent.indexed
  by_cases hfile : ∃ e ∈ p.files, e.name = d.name
  · obtain ⟨e, he, hname⟩ := hfile
    obtain ⟨place, hplace⟩ := List.mem_iff_getElem?.1 he
    rw [add_of_file indexed hplace hname]
    split
    · exact consistent
    split
    · exact consistent
    have hset := indexed.set_eq_map hplace d.text
    refine consistent_retext (indexed.set hplace { e with text := d.text } rfl) ?_ ?_
    · intro f hf hfname
      rw [hset] at hf
      obtain ⟨g, -, rfl⟩ := List.mem_map.1 hf
      by_cases hg : g.name = e.name
      · simp [hg]
      · rw [if_neg hg] at hfname
        exact absurd (hfname.trans hname.symm) hg
    · intro f hf hfname
      rw [hset] at hf
      obtain ⟨g, hgmem, rfl⟩ := List.mem_map.1 hf
      by_cases hg : g.name = e.name
      · rw [if_pos hg] at hfname
        exact absurd (hg.trans hname) hfname
      · rw [if_neg hg]
        exact consistent.digests g hgmem
  · have habsent : ∀ e ∈ p.files, e.name ≠ d.name := fun e he hname => hfile ⟨e, he, hname⟩
    rw [add_of_absent indexed habsent]
    refine consistent_retext (indexed.append habsent) ?_ ?_
    · intro e he hname
      rcases List.mem_append.1 he with hold | hnew
      · exact absurd hname (habsent e hold)
      · rw [List.mem_singleton.1 hnew]
    · intro e he hname
      rcases List.mem_append.1 he with hold | hnew
      · exact consistent.digests e hold
      · exact absurd (by rw [List.mem_singleton.1 hnew]) hname

/-- A new text for a file keeps consistency. -/
theorem update (consistent : p.Consistent) (name text : String) :
    (p.orElse (p.update name text)).Consistent := by
  have indexed := consistent.indexed
  by_cases hfile : ∃ e ∈ p.files, e.name = name
  · obtain ⟨e, he, hname⟩ := hfile
    obtain ⟨place, hplace⟩ := List.mem_iff_getElem?.1 he
    rw [update_of_file indexed hplace hname]
    exact consistent.add _
  · rw [update_of_absent indexed fun e he hname => hfile ⟨e, he, hname⟩]
    exact consistent

/-- Removing a file keeps consistency. -/
theorem remove (consistent : p.Consistent) (name : String) : (p.remove name).2.Consistent := by
  rw [Project.remove]
  split
  · exact consistent
  rename_i place hplace
  refine ⟨(consistent.indexed.eraseIdx hplace).of_eq rfl rfl, ?_,
    fun hdirty => absurd hdirty (touch_dirty_ne_nil _ _)⟩
  intro d hd
  change d ∈ p.files.eraseIdx place at hd
  rw [consistent.indexed.eraseIdx_eq_filter hplace, List.mem_filter] at hd
  change (p.digests.erase name).get? d.name = _
  rw [Assoc.get?_erase, if_neg (by simpa using hd.2)]
  exact consistent.digests d hd.1

/-- What is compiled anew is compiled from the files. -/
theorem recompile (consistent : p.Consistent) : (p.orElse p.recompile).Consistent := by
  rw [Project.recompile]
  split
  · exact consistent
  · rename_i c hc
    refine ⟨consistent.indexed.of_eq rfl rfl, consistent.digests, ?_⟩
    rintro - d hd
    obtain rfl := Option.some.inj hd
    exact hc

/-- A project with files is built as if nothing had been compiled before. -/
theorem build_eq_recompile (consistent : p.Consistent) (files : p.files ≠ []) :
    p.build = p.recompile := by
  have hfiles : p.files.isEmpty = false := by simpa using files
  rw [build, hfiles]
  simp only [Bool.false_eq_true, if_false]
  split
  · rename_i c hc
    split
    · rfl
    · rename_i hpending
      have hdirty : p.dirty = [] := by simpa [isPending] using hpending
      rw [Project.recompile, consistent.compiled hdirty c hc]
      simp only [← hdirty, ← hc]
  · rfl

/-- Building keeps consistency. -/
theorem build (consistent : p.Consistent) : (p.orElse p.build).Consistent := by
  by_cases hfiles : p.files = []
  · rw [Project.build, hfiles]
    exact consistent
  · rw [consistent.build_eq_recompile hfiles]
    exact consistent.recompile

/-- What is generated has nothing to do with consistency. -/
theorem generate (consistent : p.Consistent) : p.generate.2.Consistent := by
  have hbuild := consistent.build
  rw [Project.generate]
  cases h : p.build with
  | error e => exact consistent
  | ok built =>
      rw [h] at hbuild
      obtain ⟨c, q⟩ := built
      dsimp only
      split
      · exact hbuild
      · exact ⟨hbuild.indexed.of_eq rfl rfl, hbuild.digests, hbuild.compiled⟩

/-- Whether passes are cancelled has nothing to do with consistency. -/
theorem withCancelled (consistent : p.Consistent) (cancelled : Bool) :
    { p with cancelled }.Consistent :=
  ⟨consistent.indexed.of_eq rfl rfl, consistent.digests, consistent.compiled⟩

/-- Every request keeps consistency. -/
theorem after (consistent : p.Consistent) (request : Request) : (p.after request).Consistent := by
  cases request with
  | add d => exact consistent.add d
  | update name text => exact consistent.update name text
  | remove name => exact consistent.remove name
  | build => exact consistent.build
  | generate => exact consistent.generate
  | cancel => exact consistent.withCancelled true

/-- Every run of requests keeps consistency. -/
theorem afterAll (consistent : p.Consistent) (requests : List Request) :
    (p.afterAll requests).Consistent := by
  induction requests generalizing p with
  | nil => exact consistent
  | cons request rest ih => exact ih (consistent.after request)

end Consistent

/-! ### The files -/

section

variable {p : Project}

private theorem files_orElse_build (p : Project) : (p.orElse p.build).files = p.files := by
  cases h : p.build with
  | error e => rfl
  | ok built =>
      obtain ⟨c, q⟩ := built
      rw [build_frame h]
      rfl

/-- The first file with a name is the only one. -/
theorem Indexed.find?_files (indexed : p.Indexed) {d : Document} (hd : d ∈ p.files) :
    p.files.find? (·.name = d.name) = some d := by
  have hsome : (p.files.find? (·.name = d.name)).isSome := List.find?_isSome.2 ⟨d, hd, by simp⟩
  obtain ⟨e, he⟩ := Option.isSome_iff_exists.1 hsome
  have hname : e.name = d.name := by simpa using List.find?_some he
  rw [he, List.inj_on_of_nodup_map indexed.nodup (List.mem_of_find?_eq_some he) hd hname]

private theorem files_add_of_file (consistent : p.Consistent) {d e : Document} (he : e ∈ p.files)
    (name : e.name = d.name) (origin : e.origin = d.origin)
    (distinct : Digest.ofString e.text = Digest.ofString d.text → e.text = d.text) :
    (p.orElse (p.add d)).files =
      p.files.map fun f => if f.name = d.name then { f with text := d.text } else f := by
  obtain ⟨place, hplace⟩ := List.mem_iff_getElem?.1 he
  rw [add_of_file consistent.indexed hplace name, if_neg (not_not.2 origin), ← name,
    ← consistent.indexed.set_eq_map hplace d.text]
  split
  · rename_i hdigest
    have htext := distinct (Option.some.inj ((consistent.digests e he).symm.trans hdigest))
    obtain ⟨hlt, hget⟩ := List.getElem?_eq_some_iff.1 hplace
    rw [← htext]
    change p.files = p.files.set place e
    rw [← hget, List.set_getElem_self]
  · rfl

/-- What a request leaves has texts that were there before or came with the request. -/
theorem Request.edit_texts (request : Request) {documents : List Document} {texts : List String}
    (old : ∀ d ∈ documents, d.text ∈ texts)
    (new : ∀ text, request.text? = some text → text ∈ texts) :
    ∀ d ∈ request.edit documents, d.text ∈ texts := by
  have hmap : ∀ name text, text ∈ texts → ∀ d ∈ documents.map fun e : Document =>
      if e.name = name then { e with text } else e, d.text ∈ texts := by
    intro name text htext d hd
    obtain ⟨e, he, rfl⟩ := List.mem_map.1 hd
    split
    · exact htext
    · exact old e he
  cases request with
  | add d =>
      simp only [edit]
      split
      · intro e he
        rcases List.mem_append.1 he with hold | hnew
        · exact old e hold
        · rw [List.mem_singleton.1 hnew]
          exact new d.text rfl
      · split
        · exact hmap d.name d.text (new d.text rfl)
        · exact old
  | update name text => exact hmap name text (new text rfl)
  | remove name => exact fun d hd => old d (List.mem_filter.1 hd).1
  | build | generate | cancel => exact old

/-- If texts with one digest are one text, a request does to the files what it says. -/
theorem Consistent.files_after (consistent : p.Consistent) (request : Request)
    (distinct : ∀ e ∈ p.files, ∀ text, request.text? = some text →
      Digest.ofString e.text = Digest.ofString text → e.text = text) :
    (p.after request).files = request.edit p.files := by
  have indexed := consistent.indexed
  cases request with
  | add d =>
      by_cases hfile : ∃ e ∈ p.files, e.name = d.name
      · obtain ⟨e, he, hname⟩ := hfile
        have hfind := indexed.find?_files he
        rw [hname] at hfind
        simp only [Request.edit, hfind]
        split
        · exact files_add_of_file consistent he hname ‹_› (distinct e he d.text rfl)
        · rename_i horigin
          obtain ⟨place, hplace⟩ := List.mem_iff_getElem?.1 he
          rw [Project.after, add_of_file indexed hplace hname, if_pos horigin]
          rfl
      · have habsent : ∀ e ∈ p.files, e.name ≠ d.name := fun e he hname => hfile ⟨e, he, hname⟩
        have hfind : p.files.find? (·.name = d.name) = none :=
          List.find?_eq_none.2 (by simpa using habsent)
        rw [Project.after, add_of_absent indexed habsent]
        simp only [Request.edit, hfind]
        rfl
  | update name text =>
      by_cases hfile : ∃ e ∈ p.files, e.name = name
      · obtain ⟨e, he, rfl⟩ := hfile
        obtain ⟨place, hplace⟩ := List.mem_iff_getElem?.1 he
        rw [Project.after, update_of_file indexed hplace rfl]
        exact files_add_of_file consistent he rfl rfl (distinct e he text rfl)
      · have habsent : ∀ e ∈ p.files, e.name ≠ name := fun e he hname => hfile ⟨e, he, hname⟩
        rw [Project.after, update_of_absent indexed habsent]
        have hsame : ∀ e ∈ p.files, (if e.name = name then { e with text } else e) = e :=
          fun e he => if_neg (habsent e he)
        exact ((List.map_congr_left hsame).trans (List.map_id' _)).symm
  | remove name =>
      rw [Project.after, Project.remove]
      split
      · rename_i hnone
        symm
        refine List.filter_eq_self.2 fun e he => ?_
        obtain ⟨place, hplace⟩ := List.mem_iff_getElem?.1 he
        have hfound := (indexed.places e.name place).2 (by rw [hplace]; rfl)
        have hne : e.name ≠ name := by
          rintro rfl
          rw [hnone] at hfound
          cases hfound
        simpa using hne
      · exact indexed.eraseIdx_eq_filter ‹_›
  | build => exact p.files_orElse_build
  | generate =>
      have hbuild := p.files_orElse_build
      rw [Project.after, Project.generate]
      cases h : p.build with
      | error e => rfl
      | ok built =>
          rw [h] at hbuild
          dsimp only
          split
          · exact hbuild
          · exact hbuild
  | cancel => rfl

/-- The texts that come with requests. -/
def givenTexts (requests : List Request) : List String := requests.filterMap Request.text?

/-- If no two of the texts that a project without files is given have one digest, it holds the files
that the requests say. -/
theorem files_afterAll (config : GeneratorConfig) (requests : List Request)
    (distinct : ∀ a ∈ givenTexts requests, ∀ b ∈ givenTexts requests,
      Digest.ofString a = Digest.ofString b → a = b) :
    ((empty config).afterAll requests).files = requests.foldl Request.edit [] := by
  -- the texts of the files are among those given, so the digests of any two tell them apart
  suffices h : ∀ (p : Project) (todo : List Request), p.Consistent →
      (∀ d ∈ p.files, d.text ∈ givenTexts requests) →
      (∀ text ∈ givenTexts todo, text ∈ givenTexts requests) →
      (p.afterAll todo).files = todo.foldl Request.edit p.files from
    h (empty config) requests (consistent_empty config) (by simp [empty]) fun _ ht => ht
  intro p todo
  induction todo generalizing p with
  | nil => exact fun _ _ _ => rfl
  | cons request rest ih =>
      intro consistent htexts hgiven
      have hrequest : ∀ text, request.text? = some text → text ∈ givenTexts requests :=
        fun text h => hgiven text (List.mem_filterMap.2 ⟨request, List.mem_cons_self, h⟩)
      have hfiles := consistent.files_after request fun e he text h =>
        distinct e.text (htexts e he) text (hrequest text h)
      change ((p.after request).afterAll rest).files = rest.foldl Request.edit (request.edit p.files)
      rw [ih _ (consistent.after request) ?_ ?_, hfiles]
      · rw [hfiles]
        exact request.edit_texts htexts hrequest
      · intro text h
        obtain ⟨r, hr, htext⟩ := List.mem_filterMap.1 h
        exact hgiven text (List.mem_filterMap.2 ⟨r, List.mem_cons_of_mem _ hr, htext⟩)

end

/-! ### Answers -/

/-- What a build answers, and what is the last compilation after it. -/
def builds (p : Project) : Except ProjectError (Compilation × Option Compilation) :=
  p.build.map fun built => (built.1, built.2.compilation?)

/-- What a pass answers, and what are the last compilation and the generated texts after it. -/
def generates (p : Project) : Except ProjectError (PassStatus × Option Compilation × GeneratedSources) :=
  p.generate.1.map fun status => (status, p.generate.2.compilation?, p.generate.2.generated)

/-- The compilation of files, if there are any. -/
def compilationOf (files : List Document) : Except ProjectError Compilation :=
  if files.isEmpty then .error .noSources
  else (Compilation.build files).mapError .compilation

section

variable {p : Project}

private theorem Consistent.build_eq (consistent : p.Consistent) :
    p.build = (compilationOf p.files).map fun c => (c, { p with dirty := [], compilation? := some c }) := by
  by_cases hfiles : p.files = []
  · simp [Project.build, compilationOf, hfiles, Except.map]
  · have hfull : p.files.isEmpty = false := by simpa using hfiles
    rw [consistent.build_eq_recompile hfiles, Project.recompile, compilationOf, hfull]
    cases Compilation.build p.files with
    | error cause => rfl
    | ok c => rfl

/-- A build answers what follows from the files. -/
theorem Consistent.builds_eq (consistent : p.Consistent) :
    p.builds = (compilationOf p.files).map fun c => (c, some c) := by
  rw [builds, consistent.build_eq]
  cases compilationOf p.files with
  | error e => rfl
  | ok c => rfl

/-- A pass answers what follows from the files, the configuration, and whether it is cancelled. -/
theorem Consistent.generates_eq (consistent : p.Consistent) :
    p.generates = compilationOf p.files >>= fun c =>
      ((Pass.run p.config c.model fun _ => p.cancelled).outcome.mapError .generation).map
        fun output => (output.status, some c, GeneratedSources.add .empty output.artifacts) := by
  rw [generates, Project.generate, consistent.build_eq]
  cases compilationOf p.files with
  | error e => rfl
  | ok c =>
      dsimp only [Except.map, bind, Except.bind]
      cases (Pass.run p.config c.model fun _ => p.cancelled).outcome with
      | error e => rfl
      | ok output => rfl

private theorem afterAll_add (documents : List Document) (consistent : p.Consistent)
    (nodup : ((p.files ++ documents).map (·.name)).Nodup) :
    let q := p.afterAll (documents.map .add)
    q.files = p.files ++ documents ∧ q.config = p.config ∧ q.cancelled = p.cancelled := by
  induction documents generalizing p with
  | nil => simp [afterAll]
  | cons d rest ih =>
      have habsent : ∀ e ∈ p.files, e.name ≠ d.name := by
        rw [List.map_append, List.nodup_append] at nodup
        exact fun e he => nodup.2.2 e.name (List.mem_map_of_mem he) d.name (by simp)
      have hadd : p.after (.add d) = { p with
          files := p.files ++ [d], places := p.places.insert d.name p.files.length }.retext d := by
        rw [after, add_of_absent consistent.indexed habsent]
        rfl
      have hrest := ih (consistent.after (.add d)) (by
        rw [hadd]
        change ((p.files ++ [d] ++ rest).map (·.name)).Nodup
        rwa [List.append_assoc, List.singleton_append])
      rw [hadd] at hrest
      change let q := (p.after (.add d)).afterAll (rest.map .add)
        q.files = p.files ++ d :: rest ∧ q.config = p.config ∧ q.cancelled = p.cancelled
      rw [hadd]
      refine ⟨?_, hrest.2⟩
      rw [hrest.1]
      exact List.append_assoc p.files [d] rest

/-- A project to which the files of another one are added has these files. -/
theorem Indexed.renewed (indexed : p.Indexed) :
    p.renewed.files = p.files ∧ p.renewed.config = p.config ∧
      p.renewed.cancelled = p.cancelled := by
  exact afterAll_add p.files ((consistent_empty p.config).withCancelled p.cancelled) indexed.nodup

end

/-- After any run of requests the index is that of the files, which have no name twice; a compilation
without changes since then is that of the files; and what is built and generated is what a new project
with the same files gives. -/
theorem history_independent (config : GeneratorConfig) (requests : List Request)
    (distinct : ∀ a ∈ givenTexts requests, ∀ b ∈ givenTexts requests,
      Digest.ofString a = Digest.ofString b → a = b) :
    let p := (empty config).afterAll requests
    p.files = requests.foldl Request.edit [] ∧
    (p.files.map (·.name)).Nodup ∧
    (∀ name place, p.places.get? name = some place ↔
      (p.files[place]?).map (·.name) = some name) ∧
    (p.dirty = [] → ∀ c, p.compilation? = some c → Compilation.build p.files = .ok c) ∧
    p.builds = p.renewed.builds ∧ p.generates = p.renewed.generates := by
  intro p
  have consistent : p.Consistent := (consistent_empty config).afterAll requests
  have hrenewed : p.renewed.Consistent :=
    ((consistent_empty p.config).withCancelled p.cancelled).afterAll _
  obtain ⟨hfiles, hconfig, hcancelled⟩ := consistent.indexed.renewed
  refine ⟨files_afterAll config requests distinct, consistent.indexed.nodup,
    consistent.indexed.places, consistent.compiled, ?_, ?_⟩
  · rw [consistent.builds_eq, hrenewed.builds_eq, hfiles]
  · rw [consistent.generates_eq, hrenewed.generates_eq, hfiles, hconfig, hcancelled]

/-- Requests that change a file after it was compiled, take it out and add it again. -/
def sampleRequests : List Request :=
  [.add ⟨"a.cs", "class A { }", .source⟩, .build, .update "a.cs" "class B { }", .generate,
    .remove "a.cs", .add ⟨"b.cs", "class B { }", .reference⟩, .add ⟨"a.cs", "class A { }", .source⟩]

/-- The project after the sample requests. -/
theorem history_independent_sample :
    ((empty .standard).afterAll sampleRequests).files =
        [⟨"b.cs", "class B { }", .reference⟩, ⟨"a.cs", "class A { }", .source⟩] ∧
      ((empty .standard).afterAll sampleRequests).generates =
        ((empty .standard).afterAll sampleRequests).renewed.generates := by
  have distinct : ∀ a ∈ givenTexts sampleRequests, ∀ b ∈ givenTexts sampleRequests,
      Digest.ofString a = Digest.ofString b → a = b := by decide +kernel
  have h := history_independent .standard sampleRequests distinct
  exact ⟨h.1, h.2.2.2.2.2⟩

end Project

end Graft
