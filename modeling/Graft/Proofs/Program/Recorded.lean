/-
Module: Graft.Proofs.Program.Recorded
Purpose: The brackets of sources that are read and of getters that are recorded.
Main exports: Token.Whole.balanced_ofText, SourceTree.balanced_of_getter, TypeEntry.getterTexts,
  Completion.exists_declared_of_part, Completion.brackets_counted

A part of a property is a declaration that is written in one of the sources, and its getter is text of that
source.  This text is read by itself as the tokens that it was copied from, so that its
brackets balance as theirs do.
-/
import Graft.Proofs.Parser.Agreement
import Graft.Proofs.Parser.Getters
import Graft.Proofs.Program.TypeParams
import Graft.Proofs.Token.Excerpts

namespace Graft

/-! ### Texts of tokens that can stand alone -/

/-- How many brackets are open depends on the classes of tokens only. -/
theorem Skip.openBehind?_congr {list list' : List Token} (h : list.map Token.kind = list'.map Token.kind)
    (depth : Nat) : openBehind? depth list = openBehind? depth list' := by
  induction list generalizing list' depth with
  | nil =>
      cases list' with
      | nil => rfl
      | cons _ _ => cases h
  | cons t rest ih =>
      cases list' with
      | nil => cases h
      | cons t' rest' =>
          obtain ⟨hkind, hrest⟩ := List.cons.inj h
          rw [openBehind?, openBehind?, hkind, depthAfter_congr hkind, ih hrest]

namespace Token.Whole

variable {text : String} {i j : Nat} {span : Span} {before copied : List Char}

/-- Behind tokens that can stand alone their source can be cut off. -/
theorem cutOff {all : List Token} (h : Whole all i j) (hlt : i < j) {last : Token}
    (hlast : all[j - 1]? = some last) :
    TokenStream.Ends last (all.drop j) := by
  rcases h.ends with (rfl | ⟨t, ht, hkind⟩) | ⟨t, ht, hkind⟩
  · exact absurd hlt (Nat.not_lt_zero i)
  · obtain rfl := Option.some.inj (ht.symm.trans hlast)
    refine .inl ⟨?_, ?_⟩ <;> rintro hnumber <;> rw [hnumber] at hkind <;> simp [TokenKind.isCloser] at hkind
  · refine .inr ⟨t, ?_, hkind⟩
    rw [List.head?_drop]
    exact ht

/-- The text of tokens that can stand alone is an excerpt. -/
theorem exists_excerpt (h : Whole (TokenStream.ofText text).tokens i j)
    (clean : (TokenStream.ofText text).errors = []) (place : span.Over (TokenStream.ofText text).tokens i j)
    (covers : span.Covers text.toList before copied) :
    ∃ before', TokenStream.Excerpt text (between (TokenStream.ofText text).tokens i j) before' copied := by
  obtain ⟨first, last, hfirst, hlast, hoffset, hstop⟩ := place.bounds (TokenStream.inOrder text)
  have hlt := place.lt
  generalize hall : (TokenStream.ofText text).tokens = all at *
  have hhead : between all i j = first :: between all (i + 1) j := by
    rw [← between_append (Nat.le_succ i) hlt, between_single hfirst]
    rfl
  have hconcat : between all i j = between all i (j - 1) ++ [last] := by
    have hone := between_single hlast
    rw [Nat.sub_add_cancel (Nat.one_le_of_lt hlt)] at hone
    rw [← hone, between_append (Nat.le_sub_one_of_lt hlt) (Nat.sub_le j 1)]
  have htokens : (TokenStream.ofText text).tokens =
      all.take i ++ first :: (between all (i + 1) j ++ all.drop j) := by
    rw [hall, ← List.cons_append, ← hhead, between_append_drop (Nat.le_of_lt hlt), List.take_append_drop]
  obtain ⟨before', excerpt, hexcerpt⟩ :=
    TokenStream.exists_excerpt clean htokens (hhead ▸ hconcat) (h.cutOff hlt hlast)
  have hcopied := hexcerpt.eq_of_covers rfl (by rw [← hhead, hconcat, List.getLast?_concat]) hoffset
    hstop covers
  rw [hhead, hcopied]
  exact ⟨before', hexcerpt⟩

/-- The text of tokens that can stand alone has brackets that balance. -/
theorem balanced_ofText (h : Whole (TokenStream.ofText text).tokens i j)
    (clean : (TokenStream.ofText text).errors = []) (place : span.Over (TokenStream.ofText text).tokens i j)
    (covers : span.Covers text.toList before copied) :
    Skip.Balanced (TokenStream.ofText (String.ofList copied)).tokens := by
  obtain ⟨before', hexcerpt⟩ := h.exists_excerpt clean place covers
  obtain ⟨-, hmarks⟩ := hexcerpt.ofText
  have hkinds := congrArg (List.map Prod.fst) hmarks
  rw [List.map_map, List.map_map] at hkinds
  rw [Skip.Balanced, Skip.openBehind?_congr hkinds]
  exact h.balanced

end Token.Whole

/-! ### Getters of sources -/

/-- A source that is read without an error has no unreadable pieces. -/
theorem TokenStream.errors_of_parse {source : SourceId} {text : String} {file : SourceFile}
    (h : SourceFile.parse source text = .ok file) : (ofText text).errors = [] := by
  obtain ⟨t, hrun, herrors⟩ := SourceFile.exists_of_parse h
  obtain ⟨_, -, -, hclean⟩ := (Parser.Even.sourceFile 0 _ (.ofText source text)).of_ok hrun
  exact List.map_eq_nil_iff.1 (hclean herrors).1

/-- A tree is that of its file: the text of the source is read as this, and it has the
declarations that the tree has. -/
theorem SourceTree.file_of_parse {id : SourceId} {d : Document} {t : SourceTree} (h : parse id d = .ok t) :
    SourceFile.parse id t.text = .ok t.file ∧ ∀ s ∈ t.sites, s.decl ∈ t.file.typeDecls := by
  have hsites : ∀ s ∈ t.sites, s.decl ∈ t.file.typeDecls := fun s hs =>
    map_decl_sites t ▸ List.mem_map_of_mem hs
  unfold parse at h
  cases hfile : SourceFile.parse id d.text with
  | error e =>
      rw [hfile] at h
      cases h
  | ok file =>
      rw [hfile] at h
      cases h
      exact ⟨hfile, hsites⟩

/-- A getter has the form that its property is declared with, and the text at the place of it. -/
theorem SourceTree.exists_of_getter {t : SourceTree} {p : PropertyDecl} {getter : Getter}
    (h : t.getter? p = some getter) :
    ∃ span, p.getter? = some (getter.form, span) ∧ span.slice? t.text = some getter.text := by
  unfold getter? at h
  split at h
  · obtain ⟨⟨form, span⟩, hspan, hslice⟩ := Option.bind_eq_some_iff.1 h
    obtain ⟨text, htext, hsame⟩ := Option.bind_eq_some_iff.1 hslice
    obtain rfl := Option.some.inj hsame
    exact ⟨span, hspan, htext⟩
  · cases h

/-- The brackets of a getter balance, if it is that of a property of a type in the tree. -/
theorem SourceTree.balanced_of_getter {id : SourceId} {d : Document} {t : SourceTree}
    (h : parse id d = .ok t) {s : DeclSite} (hs : s ∈ t.sites) {p : PropertyDecl}
    (hp : .property p ∈ s.decl.members) {getter : Getter} (hgetter : t.getter? p = some getter) :
    Skip.Balanced (TokenStream.ofText getter.text).tokens := by
  obtain ⟨hfile, hdecls⟩ := file_of_parse h
  obtain ⟨span, hspan, hslice⟩ := exists_of_getter hgetter
  obtain ⟨i, j, place, whole⟩ :=
    SourceFile.copied_of_parse hfile s.decl (hdecls s hs) p hp getter.form span hspan
  obtain ⟨before, copied, covers⟩ := place.covers
  have hcopied : String.ofList copied = getter.text := Option.some.inj (covers.slice?.symm.trans hslice)
  exact hcopied ▸ whole.balanced_ofText (TokenStream.errors_of_parse hfile) place covers

/-! ### Getters that are recorded -/

/-- The texts of the getters that are recorded with the properties of a type. -/
def TypeEntry.getterTexts (e : TypeEntry) : List String :=
  (e.members.filterMap MemberEntry.property?).flatMap fun p => p.parts.filterMap fun part =>
    part.getter?.map (·.text)

/-- A recorded text is that of a part of a property. -/
theorem TypeEntry.exists_of_mem_getterTexts {e : TypeEntry} {text : String} (h : text ∈ e.getterTexts) :
    ∃ entry, .property entry ∈ e.members ∧ ∃ part ∈ entry.parts, ∃ getter, part.getter? = some getter ∧
      getter.text = text := by
  obtain ⟨entry, hentry, htext⟩ := List.mem_flatMap.1 h
  obtain ⟨m, hm, hproperty⟩ := List.mem_filterMap.1 hentry
  obtain ⟨part, hpart, hgetter⟩ := List.mem_filterMap.1 htext
  obtain ⟨getter, hsome, hsame⟩ := Option.map_eq_some_iff.1 hgetter
  cases m with
  | property p =>
      obtain rfl := Option.some.inj hproperty
      exact ⟨p, hm, part, hpart, getter, hsome, hsame⟩
  | field _ | method _ | event _ | nestedType _ _ => cases hproperty

/-- What is written as a property is a property of the declaration. -/
theorem MemberItem.eq_of_mem_ofDecl {declared : Assoc DeclId TypeKey} {m : MemberDecl} {p : PropertyDecl}
    (h : .property p ∈ ofDecl declared m) : m = .property p := by
  cases m with
  | property d =>
      obtain rfl := MemberItem.property.inj (List.mem_singleton.1 h)
      rfl
  | field d | event d =>
      obtain ⟨_, -, heq⟩ := List.mem_map.1 h
      cases heq
  | method d => cases List.mem_singleton.1 h
  | type d =>
      obtain ⟨_, -, heq⟩ := Option.map_eq_some_iff.1 (Option.mem_toList.1 h)
      cases heq
  | other _ => cases h

/-- Each part of a property that tells a group is a declaration in the group. -/
theorem MemberEntry.Tells.exists_of_part {r : Registry} {group : List WrittenMember} {entry : PropertyEntry}
    (h : Tells r group (.property entry)) {part : PropertyPart} (hpart : part ∈ entry.parts) :
    ∃ b p, ⟨b, .property p⟩ ∈ group ∧ part = b.tree.part p := by
  cases h with
  | property b d more several =>
      rcases List.mem_cons.1 hpart with rfl | hpart
      · exact ⟨b, d, List.mem_cons_self, rfl⟩
      · obtain ⟨w, hw, rfl⟩ := List.mem_map.1 hpart
        exact ⟨w.1, w.2, List.mem_cons_of_mem _ (List.mem_map_of_mem (f := fun w : DeclBody × PropertyDecl =>
          (⟨w.1, .property w.2⟩ : WrittenMember)) hw), rfl⟩

namespace Completion

/-- Each part of a property of a completed type is a property that is declared in one of the trees. -/
theorem exists_declared_of_part {trees : List SourceTree}
    (hids : ((DeclPlace.ofTrees trees).map (·.site.decl.id)).Nodup) {key : TypeKey} {e : TypeEntry}
    (he : (ofTrees trees).registry.get? key = some e) {entry : PropertyEntry}
    (hentry : .property entry ∈ e.members) {part : PropertyPart} (hpart : part ∈ entry.parts) :
    ∃ t ∈ trees, ∃ s ∈ t.sites, ∃ p, .property p ∈ s.decl.members ∧ part = t.part p := by
  obtain ⟨groups, hgrouping, htold⟩ := members_told hids he
  obtain ⟨group, hzip, htells⟩ := exists_mem_zip_of_forall₂
    (List.Forall₂.flip (R := fun m group => MemberEntry.Tells _ group m) htold) hentry
  obtain ⟨b, p, hwritten, rfl⟩ := htells.exists_of_part hpart
  have hmem := hgrouping.perm.mem_iff.1 (List.mem_flatten_of_mem (List.of_mem_zip hzip).2 hwritten)
  obtain ⟨place, hplace, hbody⟩ := List.mem_flatMap.1 hmem
  obtain ⟨m, hm, hitem⟩ := List.mem_flatMap.1 hbody
  obtain ⟨item, hitem, heq⟩ := List.mem_map.1 hitem
  obtain ⟨rfl, rfl⟩ := WrittenMember.mk.inj heq
  obtain ⟨ht, hs⟩ := DeclPlace.mem_ofTrees.1 (List.mem_filter.1 hplace).1
  exact ⟨place.tree, ht, place.site, hs, p, MemberItem.eq_of_mem_ofDecl hitem ▸ hm, rfl⟩

/-- In each source that is read without an error as many brackets are closed as are opened, and up to no
token have more been closed.  So it is with the tokens that are read from the text of any
getter that is recorded. -/
theorem brackets_counted :
    (∀ source text file, SourceFile.parse source text = .ok file →
      Token.Counted (TokenStream.ofText text).tokens) ∧
    ∀ documents trees, Compilation.read documents = .ok trees →
      ∀ key e, (ofTrees trees).registry.get? key = some e → ∀ text ∈ e.getterTexts,
        Token.Counted (TokenStream.ofText text).tokens := by
  refine ⟨fun source text file h => Skip.balanced_iff_counted.1 (TokenStream.balanced_of_parse h), ?_⟩
  intro documents trees hread key e he text htext
  obtain ⟨entry, hentry, part, hpart, getter, hgetter, rfl⟩ := TypeEntry.exists_of_mem_getterTexts htext
  obtain ⟨t, ht, s, hs, p, hp, rfl⟩ :=
    exists_declared_of_part (DeclPlace.nodup_ids_of_read hread) he hentry hpart
  obtain ⟨id, d, hparse⟩ := Compilation.parse_of_readFrom hread t ht
  exact Skip.balanced_iff_counted.1 (SourceTree.balanced_of_getter hparse hs hp hgetter)

/-- The texts of the getters of the type that is declared first in documents, if they can be read. -/
def firstGetterTexts? (documents : List Document) : Option (List String) := do
  let trees ← (Compilation.read documents).toOption
  let p ← (DeclPlace.ofTrees trees).head?
  let e ← (ofTrees trees).registry.get? p.site.key
  return e.getterTexts

theorem of_firstGetterTexts?_eq_some {documents : List Document} {texts : List String}
    (h : firstGetterTexts? documents = some texts) : ∃ trees key e, Compilation.read documents = .ok trees ∧
      (ofTrees trees).registry.get? key = some e ∧ e.getterTexts = texts := by
  unfold firstGetterTexts? at h
  obtain ⟨trees, hread, h⟩ := Option.bind_eq_some_iff.1 h
  obtain ⟨p, -, h⟩ := Option.bind_eq_some_iff.1 h
  obtain ⟨e, he, h⟩ := Option.bind_eq_some_iff.1 h
  exact ⟨trees, p.site.key, e, eq_ok_of_toOption hread, he, Option.some.inj h⟩

/-- A class with a getter that a parenthesis ends, and one that ends with a number. -/
def mixedGetters : String := "class C\x7bint P\x7b[A(0)]get\x7b)\x7dint Q=>1;\x7d"

/-- Brackets of different kinds balance by their number. -/
theorem brackets_counted_mixedGetters :
    (∃ file, SourceFile.parse ⟨0⟩ mixedGetters = .ok file) ∧
      Token.Counted (TokenStream.ofText mixedGetters).tokens ∧
      ∃ trees key e, Compilation.read [⟨"a.cs", mixedGetters, .source⟩] = .ok trees ∧
        (ofTrees trees).registry.get? key = some e ∧ e.getterTexts = ["[A(0)]get\x7b)", "=>1"] ∧
          Token.Counted (TokenStream.ofText "[A(0)]get\x7b)").tokens ∧
            Token.Counted (TokenStream.ofText "=>1").tokens := by
  obtain ⟨file, hfile⟩ : ∃ file, SourceFile.parse ⟨0⟩ mixedGetters = .ok file := by
    have hsome : (SourceFile.parse ⟨0⟩ mixedGetters).toOption.isSome = true := by decide +kernel
    exact (Option.isSome_iff_exists.1 hsome).imp fun _ => eq_ok_of_toOption
  obtain ⟨trees, key, e, hread, he, htexts⟩ := of_firstGetterTexts?_eq_some
    (show firstGetterTexts? [⟨"a.cs", mixedGetters, .source⟩] =
    some ["[A(0)]get\x7b)", "=>1"] by decide +kernel)
  have hcounted := brackets_counted.2 _ trees hread key e he
  rw [htexts] at hcounted
  exact ⟨⟨file, hfile⟩, brackets_counted.1 _ _ file hfile, trees, key, e, hread, he, htexts,
    hcounted _ List.mem_cons_self, hcounted _ (List.mem_cons_of_mem _ List.mem_cons_self)⟩

end Completion

end Graft
