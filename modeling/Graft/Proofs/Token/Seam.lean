/-
Module: Graft.Proofs.Token.Seam
Purpose: Pieces of a text do not depend on what follows, as long as it starts with a stop.
Main exports: Operator.match?_append, Piece.ofText_append
-/
import Graft.Proofs.Token.Bounds

namespace Graft

open Text (Stops Seam)

/-! ### Operators -/

namespace Operator

variable {a v v' : List Char}

/-- Behind its first character no operator has a stop. -/
theorem not_stop_of_mem_table : ∀ entry ∈ table, ∀ c ∈ entry.1.drop 1, c ≠ ' ' ∧ c ≠ '\n' ∧ c ≠ ';' := by
  have hall : (table.all fun entry => (entry.1.drop 1).all fun c => c != ' ' && c != '\n' && c != ';') =
      true := by rfl
  intro entry hentry c hc
  have hc := List.all_eq_true.1 (List.all_eq_true.1 hall entry hentry) c hc
  simpa [and_assoc] using hc

theorem isPrefixOf_append {entry : List Char × TokenKind} (mem : entry ∈ table) (ha : a ≠ [])
    (stop : Stops v') (h : entry.1.isPrefixOf (a ++ v') = true) : entry.1 <+: a := by
  have hprefix := List.isPrefixOf_iff_prefix.1 h
  rcases Nat.lt_or_ge a.length entry.1.length with hlong | hshort
  · -- the operator would have the stop inside
    exfalso
    obtain ⟨more, hmore⟩ := hprefix
    have hget : entry.1[a.length]? = v'.head? := by
      have happend : (entry.1 ++ more)[a.length]? = (a ++ v')[a.length]? := by rw [hmore]
      rw [List.getElem?_append_left hlong, List.getElem?_append_right (Nat.le_refl _),
        Nat.sub_self] at happend
      rw [happend, List.head?_eq_getElem?]
    rw [List.getElem?_eq_getElem hlong] at hget
    have hpos : 0 < a.length := List.length_pos_iff.2 ha
    have hin : entry.1[a.length] ∈ entry.1.drop 1 :=
      List.mem_drop_iff_getElem.2 ⟨a.length - 1, by omega, by
        congr 1
        omega⟩
    have hne := not_stop_of_mem_table entry mem _ hin
    rcases stop _ hget.symm with hc | hc | hc
    · exact hne.1 hc
    · exact hne.2.1 hc
    · exact hne.2.2 hc
  · exact List.prefix_of_prefix_length_le hprefix (List.prefix_append _ _) hshort

/-- The operator at the start of a text, if it ends inside it. -/
theorem match?_append (ha : a ≠ []) {entry : List Char × TokenKind}
    (h : match? (a ++ v) = some entry) (fit : entry.1.length ≤ a.length) (stop : Stops v') :
    match? (a ++ v') = some entry := by
  obtain ⟨hfound, before, behind, htable, hbefore⟩ := List.find?_eq_some_iff_append.1 h
  refine List.find?_eq_some_iff_append.2 ⟨?_, before, behind, htable, fun other hother => ?_⟩
  · have hin : entry.1 <+: a :=
      List.prefix_of_prefix_length_le (List.isPrefixOf_iff_prefix.1 hfound) (List.prefix_append _ _) fit
    exact List.isPrefixOf_iff_prefix.2 (hin.trans (List.prefix_append _ _))
  · have hmem : other ∈ table := htable ▸ List.mem_append_left _ hother
    have hnone := hbefore other hother
    simp only [Bool.not_eq_true'] at hnone ⊢
    refine Bool.eq_false_iff.2 fun hother => ?_
    have hin := isPrefixOf_append hmem ha stop hother
    rw [List.isPrefixOf_iff_prefix.2 (hin.trans (List.prefix_append _ v))] at hnone
    cases hnone

end Operator

/-! ### Pieces -/

namespace Piece

open Number (runLength runLength_append runLength_append_of_lt)

variable {a r v v' : List Char} {first : Char}

/-- A comment that is closed inside a text. -/
theorem commentLength_append (closed : (commentLength (a ++ v)).2 = true)
    (fit : (commentLength (a ++ v)).1 ≤ a.length) : commentLength (a ++ v') = commentLength (a ++ v) := by
  have hend : ∀ w, commentLength ('*' :: '/' :: w) = (2, true) := fun w => by rw [commentLength]
  have hmore : ∀ c w, ¬(c = '*' ∧ w.head? = some '/') →
      commentLength (c :: w) = ((commentLength w).1 + 1, (commentLength w).2) := fun c w hc => by
    rw [commentLength]
    rintro rest rfl rfl
    exact hc ⟨rfl, rfl⟩
  have hpos : ∀ w, (commentLength w).2 = true → 2 ≤ (commentLength w).1 := by
    intro w
    fun_induction commentLength w with
    | case1 => simp
    | case2 => simp
    | case3 _ _ _ _ _ heq ih =>
        intro hclosed
        have := ih (by rw [heq]; exact hclosed)
        rw [heq] at this
        simp only at this ⊢
        omega
  induction a with
  | nil =>
      have := hpos _ closed
      simp only [List.length_nil] at fit
      omega
  | cons c rest ih =>
      simp only [List.cons_append, List.length_cons] at closed fit ⊢
      cases rest with
      | nil =>
          have := hpos _ closed
          simp only [List.length_nil] at fit
          omega
      | cons d rest =>
          by_cases hc : c = '*' ∧ d = '/'
          · obtain ⟨rfl, rfl⟩ := hc
            simp only [List.cons_append, hend]
          · have hne : ∀ w, ¬(c = '*' ∧ (d :: rest ++ w).head? = some '/') := fun w hw =>
              hc ⟨hw.1, Option.some.inj hw.2⟩
            rw [hmore c _ (hne v)] at closed fit ⊢
            rw [hmore c _ (hne v'), ih closed (by simp only at fit; omega)]

theorem line_append (fit : (line (a ++ v)).count < a.length ∨
      (line (a ++ v)).count ≤ a.length ∧ v'.head? = some '\n') : line (a ++ v') = line (a ++ v) := by
  unfold line separator at *
  dsimp only at fit
  rcases fit with fit | ⟨fit, hline⟩
  · rw [runLength_append_of_lt fit]
  · rw [runLength_append fit (by rw [hline]; rfl)]

theorem comment_append (ha : ['/', '*'].isPrefixOf a = true) (sound : (comment (a ++ v)).faults = [])
    (fit : (comment (a ++ v)).count ≤ a.length) : comment (a ++ v') = comment (a ++ v) := by
  have htwo : 2 ≤ a.length := (List.isPrefixOf_iff_prefix.1 ha).length_le
  unfold comment at sound fit ⊢
  rw [List.drop_append_of_le_length htwo] at sound fit ⊢
  rw [List.drop_append_of_le_length htwo]
  dsimp only at sound fit ⊢
  split at fit
  · rename_i hclosed
    simp only [separator] at fit
    rw [commentLength_append hclosed (by rw [List.length_drop]; omega)]
  · rename_i hclosed
    rw [if_neg hclosed] at sound
    cases sound

theorem seam_drop (seam : Seam a v) (n : Nat) : Seam (a.drop n) v := by
  refine seam.imp_left fun hlast => ?_
  rw [List.getLast?_drop]
  split
  · rfl
  · exact hlast

theorem string_append {marks : Literal.Marks} (sound : (string marks (a ++ v)).faults = [])
    (fit : (string marks (a ++ v)).count ≤ a.length) (stop : Stops v') (seam : Seam a v) :
    string marks (a ++ v') = string marks (a ++ v) := by
  unfold string at sound fit ⊢
  dsimp only at sound fit ⊢
  generalize hextent : Literal.reach [.fresh (Literal.opened marks.verbatim marks.holes
    ((a ++ v).drop (marks.count + 1)))] (marks.count + 1) ((a ++ v).drop (marks.count + 1)) =
      extent at sound fit ⊢
  have hclosed : extent.closed = true := by
    cases hclosed : extent.closed with
    | true => rfl
    | false =>
        rw [hclosed] at sound
        simp at sound
  rw [if_pos hclosed] at fit ⊢
  dsimp only at fit
  have hmore := Literal.add_length_le_reach _ _ _ (hextent ▸ hclosed)
  rw [hextent] at hmore
  simp only [List.length_cons, List.length_nil] at hmore
  have hdrop : ∀ w, (a ++ w).drop (marks.count + 1) = a.drop (marks.count + 1) ++ w := fun w =>
    List.drop_append_of_le_length (by omega)
  rw [hdrop] at hextent ⊢
  rw [hdrop]
  have hlength : (a.drop (marks.count + 1)).length = a.length - (marks.count + 1) := List.length_drop
  have hquote : v'.head? ≠ some '"' := stop.head_ne (by decide)
  have hopened := Literal.opened_append_of_closed hquote (hextent ▸ hclosed)
    (by rw [← Literal.Level.fresh, hextent]; omega)
  have hreach := Literal.reach_append hquote (hextent ▸ hclosed) (by rw [hextent]; omega)
  rw [hopened, hreach, hextent, if_pos hclosed]
  have hrest : ∀ w, (a ++ w).drop extent.count = a.drop extent.count ++ w := fun w =>
    List.drop_append_of_le_length (by omega)
  rw [hrest] at fit
  rw [hrest, hrest, Literal.suffixLength_append (by rw [List.length_drop]; omega) stop
    (seam_drop seam _)]

theorem char_append (sound : (char (first :: r ++ v)).faults = [])
    (fit : (char (first :: r ++ v)).count ≤ r.length + 1) (stop : Stops v') :
    char (first :: r ++ v') = char (first :: r ++ v) := by
  unfold char at sound fit ⊢
  simp only [List.cons_append, List.drop_succ_cons, List.drop_zero] at sound fit ⊢
  have hclosed : (Literal.reach [.fresh (.char 0)] 1 (r ++ v)).closed = true := by
    cases hclosed : (Literal.reach [.fresh (.char 0)] 1 (r ++ v)).closed with
    | true => rfl
    | false =>
        rw [hclosed] at sound
        simp [broken] at sound
  rw [if_pos hclosed] at fit
  simp only [token] at fit
  rw [Literal.reach_append (stop.head_ne (by decide)) hclosed (by omega)]

theorem identifierLength_append (fit : identifierLength (a ++ v) ≤ a.length) (stop : Stops v') :
    identifierLength (a ++ v') = identifierLength (a ++ v) :=
  runLength_append fit stop.not_identContinue

theorem word_append (fit : (word (a ++ v)).count ≤ a.length) (stop : Stops v') :
    word (a ++ v') = word (a ++ v) := by
  unfold word at fit ⊢
  simp only [token] at fit ⊢
  rw [identifierLength_append fit stop, List.take_append_of_le_length fit,
    List.take_append_of_le_length fit]

/-- A string has two quotes. -/
theorem count_string_ge {marks : Literal.Marks} {text : List Char}
    (sound : (string marks text).faults = []) : marks.count + 2 ≤ (string marks text).count := by
  unfold string at sound ⊢
  dsimp only at sound ⊢
  split at sound
  · rename_i hclosed
    have hmore := Literal.add_length_le_reach _ _ _ hclosed
    simp only [List.length_cons, List.length_nil] at hmore
    rw [if_pos hclosed]
    dsimp only
    omega
  · simp at sound

theorem marked_append (sound : (marked first (r ++ v)).faults = [])
    (fit : (marked first (r ++ v)).count ≤ r.length + 1) (stop : Stops v')
    (seam : Seam (first :: r) v) : marked first (r ++ v') = marked first (r ++ v) := by
  unfold marked at sound fit
  by_cases hname : (first = '@' && (r ++ v).head?.any Text.isIdentStart) = true
  · rw [if_pos hname] at fit
    simp only [token] at fit
    have hpos : 0 < identifierLength (r ++ v) := by
      simp only [Bool.and_eq_true] at hname
      cases hrest : r ++ v with
      | nil =>
          rw [hrest] at hname
          cases hname.2
      | cons c rest =>
          rw [hrest] at hname
          exact Number.runLength_pos (Text.isIdentContinue_of_isIdentStart hname.2)
    cases r with
    | nil =>
        simp only [List.length_nil] at fit
        omega
    | cons c rest =>
        unfold marked
        rw [if_pos hname, if_pos (by exact hname),
          identifierLength_append (a := c :: rest) (v := v) (by rw [List.length_cons] at *; omega) stop]
  · rw [if_neg hname] at sound fit
    dsimp only at sound fit
    generalize hmarks : Literal.readMarks ⟨0, false, false⟩ (first :: (r ++ v)) = marks at sound fit
    by_cases hquote : ((first :: (r ++ v)).drop marks.count).head? = some '"'
    · rw [if_pos hquote] at sound fit
      have hcount := count_string_ge sound
      have hlt : marks.count < (first :: r).length := by
        rw [List.length_cons]
        omega
      cases r with
      | nil =>
          simp only [List.length_nil] at fit
          omega
      | cons c rest =>
          have hmarks' : Literal.readMarks ⟨0, false, false⟩ (first :: (c :: rest ++ v')) = marks := by
            have hsame : Literal.readMarks ⟨0, false, false⟩ (first :: c :: rest ++ v') =
                Literal.readMarks ⟨0, false, false⟩ (first :: c :: rest ++ v) :=
              Literal.readMarks_append (by
                rw [List.cons_append, hmarks]
                simpa using hlt)
            exact hsame.trans hmarks
          have hhead : ∀ w, ((first :: (c :: rest ++ w)).drop marks.count).head? =
              ((first :: c :: rest).drop marks.count).head? := by
            intro w
            rw [← List.cons_append, List.drop_append_of_le_length (Nat.le_of_lt hlt), List.head?_append]
            rw [List.drop_eq_getElem_cons hlt]
            rfl
          rw [hhead] at hquote
          unfold marked
          dsimp only
          rw [if_neg (by exact hname), if_neg hname, hmarks, hmarks', hhead, hhead, if_pos hquote,
            if_pos hquote]
          exact string_append (a := first :: c :: rest) sound fit stop seam
    · rw [if_neg hquote] at sound
      cases sound

theorem scan_append (sound : (scan first (r ++ v)).faults = [])
    (fit : (scan first (r ++ v)).count ≤ r.length + 1) (stop : Stops v')
    (seam : Seam (first :: r) v) : scan first (r ++ v') = scan first (r ++ v) := by
  unfold scan at sound fit ⊢
  dsimp only at sound fit ⊢
  split
  · rename_i hquote
    rw [if_pos hquote] at sound fit
    exact string_append (a := first :: r) sound fit stop seam
  rename_i hquote
  rw [if_neg hquote] at sound fit
  split
  · rename_i hchar
    rw [if_pos hchar] at sound fit
    exact char_append sound fit stop
  rename_i hchar
  rw [if_neg hchar] at sound fit
  split
  · rename_i hmark
    rw [if_pos hmark] at sound fit
    exact marked_append sound fit stop seam
  rename_i hmark
  rw [if_neg hmark] at sound fit
  have hstarts : Number.starts (first :: (r ++ v')) = Number.starts (first :: (r ++ v)) :=
    Number.starts_append (fun hstarts => by
      rw [List.cons_append] at hstarts ⊢
      rw [if_pos hstarts] at fit
      exact fit) stop
  rw [hstarts]
  split
  · rename_i hnumber
    rw [if_pos hnumber] at fit
    have hextent := Number.extent_append (z := first :: r) (List.cons_ne_nil _ _) fit stop
    rw [List.cons_append, List.cons_append] at hextent
    rw [hextent]
  rename_i hnumber
  rw [if_neg hnumber] at sound fit
  split
  · rename_i hword
    rw [if_pos hword] at fit
    exact word_append (a := first :: r) fit stop
  rename_i hword
  rw [if_neg hword] at sound fit
  cases hmatch : Operator.match? (first :: (r ++ v)) with
  | none =>
      rw [hmatch] at sound
      cases sound
  | some entry =>
      rw [hmatch] at fit
      have hsame := Operator.match?_append (a := first :: r) (List.cons_ne_nil _ _) hmatch fit stop
      rw [List.cons_append] at hsame
      rw [hsame]

/-- Whether two characters start a text. -/
private theorem isPrefixOf_two (x y first : Char) (r w : List Char) :
    [x, y].isPrefixOf (first :: (r ++ w)) = [x, y].isPrefixOf (first :: r) ∨
      r = [] ∧ ∃ rest, first = x ∧ w = y :: rest := by
  cases r with
  | cons c rest => exact .inl (by simp [List.isPrefixOf])
  | nil =>
      cases w with
      | nil => exact .inl rfl
      | cons c rest =>
          by_cases hc : x = first ∧ y = c
          · obtain ⟨rfl, rfl⟩ := hc
            exact .inr ⟨rfl, rest, rfl, rfl⟩
          · refine .inl ?_
            simp only [List.nil_append, List.isPrefixOf, Bool.and_true, Bool.and_false]
            rw [Bool.and_eq_false_iff]
            simp only [beq_eq_false_iff_ne]
            exact Decidable.or_iff_not_not_and_not.2 fun hne =>
              hc ⟨by simpa using hne.1, by simpa using hne.2⟩

private theorem isPrefixOf_two_stops (x : Char) {y : Char} (hy : y ≠ ' ' ∧ y ≠ '\n' ∧ y ≠ ';')
    (stop : Stops v') : [x, y].isPrefixOf (first :: (r ++ v')) = [x, y].isPrefixOf (first :: r) := by
  rcases isPrefixOf_two x y first r v' with hsame | ⟨-, rest, -, rfl⟩
  · exact hsame
  · exact absurd rfl (stop.head_ne hy)

/-- What is no token may end with a text if a new line follows, or if something else followed. -/
def LineMayEnd (v v' : List Char) : Prop := v'.head? = some '\n' ∨ ∃ c rest, v = c :: rest ∧ c ≠ '\n'

/-- A sound piece that ends inside a text stays as it is whatever follows. -/
theorem ofText_append {b b' : Bool} (fit : (ofText b first (r ++ v)).count ≤ r.length + 1)
    (sound : (ofText b first (r ++ v)).faults = [])
    (ends : (ofText b first (r ++ v)).kind?.isSome ∨ (ofText b first (r ++ v)).count < r.length + 1 ∨
      LineMayEnd v v')
    (hb : first = '#' → b' = b) (stop : Stops v') (seam : Seam (first :: r) v) :
    ofText b' first (r ++ v') = ofText b first (r ++ v) := by
  have hline : ∀ w, w = line (first :: (r ++ v)) → w.count ≤ r.length + 1 →
      (w.kind?.isSome ∨ w.count < r.length + 1 ∨ LineMayEnd v v') →
        line (first :: (r ++ v')) = w := by
    rintro w rfl hfit hends
    refine line_append (a := first :: r) ?_
    rcases hends with hends | hends | hends | ⟨c, rest, rfl, hc⟩
    · cases hends
    · exact .inl hends
    · exact .inr ⟨hfit, hends⟩
    · exact .inl (Number.runLength_lt_of_le (z := first :: r) (by simpa using hc) hfit)
  unfold ofText at fit sound ends ⊢
  dsimp only at fit sound ends ⊢
  rw [isPrefixOf_two_stops '/' (by decide) stop, isPrefixOf_two_stops '/' (by decide) stop]
  have hslashes : ['/', '/'].isPrefixOf (first :: (r ++ v)) = ['/', '/'].isPrefixOf (first :: r) := by
    rcases isPrefixOf_two '/' '/' first r v with hsame | ⟨rfl, rest, rfl, rfl⟩
    · exact hsame
    · -- the comment goes on in what follows
      simp [line, separator, runLength] at fit
  rw [hslashes] at fit sound ends ⊢
  by_cases hcomment : ['/', '/'].isPrefixOf (first :: r) = true
  · rw [if_pos hcomment] at fit sound ends
    rw [if_pos hcomment, if_pos hcomment]
    exact hline _ rfl fit ends
  rw [if_neg hcomment] at fit sound ends
  rw [if_neg hcomment, if_neg hcomment]
  have hblock : ['/', '*'].isPrefixOf (first :: (r ++ v)) = ['/', '*'].isPrefixOf (first :: r) := by
    rcases isPrefixOf_two '/' '*' first r v with hsame | ⟨rfl, rest, rfl, rfl⟩
    · exact hsame
    · have hopen : ['/', '*'].isPrefixOf ('/' :: ([] ++ '*' :: rest)) = true := by
        simp [List.isPrefixOf]
      rw [if_pos hopen] at fit
      unfold comment at fit
      dsimp only at fit
      split at fit <;> simp [separator, broken] at fit
  rw [hblock] at fit sound ends ⊢
  by_cases hopen : ['/', '*'].isPrefixOf (first :: r) = true
  · rw [if_pos hopen] at fit sound
    rw [if_pos hopen, if_pos hopen]
    exact comment_append (a := first :: r) hopen sound fit
  rw [if_neg hopen] at fit sound ends
  rw [if_neg hopen, if_neg hopen]
  have hdirective : (first = '#' && b') = (first = '#' && b) := by
    by_cases hfirst : first = '#'
    · rw [hb hfirst]
    · simp [hfirst]
  rw [hdirective]
  split
  · rename_i hhash
    rw [if_pos hhash] at fit ends
    exact hline _ rfl fit ends
  · rename_i hhash
    rw [if_neg hhash] at fit sound
    exact scan_append sound fit stop seam

end Piece

end Graft
