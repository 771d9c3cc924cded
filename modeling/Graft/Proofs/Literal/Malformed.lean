/-
Module: Graft.Proofs.Literal.Malformed
Purpose: Where the first malformed escape of a text stands.
Main exports: Literal.FirstBad, Literal.unescape_error_iff, Literal.bracePairs, Literal.FirstBad.spread

Escapes are taken from left to right, and the first one that stands for nothing is counted to in bytes.
Where braces are written twice, the text that is counted has one brace for each pair, so that the count falls
short of the place in the text as it is written.
-/
import Graft.Proofs.Literal.Delimiters

namespace Graft.Literal

variable {text body rest after bad : List Char} {c value : Char} {offset n : Nat}

/-- From the backslash of its first malformed escape on, a text goes on with `bad`. -/
inductive FirstBad : List Char → List Char → Prop where
  | here {back : List Char} (none : Escape.take? back = none) : FirstBad ('\\' :: back) ('\\' :: back)
  | plain {c : Char} {text bad : List Char} (ne : c ≠ '\\') (later : FirstBad text bad) :
      FirstBad (c :: text) bad
  | passed {rest after bad : List Char} {value : Char} (some : Escape.take? rest = some (value, after))
      (later : FirstBad after bad) : FirstBad ('\\' :: rest) bad

/-! ### Escapes -/

namespace Escape

theorem isSuffix_of_takeCoded? {least most : Nat} (h : takeCoded? least most text = some (value, after)) :
    after <:+ text := by
  unfold takeCoded? at h
  dsimp only at h
  split at h
  · cases h
  · obtain ⟨_, _, heq⟩ := Option.map_eq_some_iff.1 h
    cases heq
    exact List.drop_suffix _ _

/-- What an escape leaves is the end of the text. -/
theorem isSuffix_of_take? (h : take? text = some (value, after)) : after <:+ text := by
  cases text with
  | nil => cases h
  | cons c rest =>
      simp only [take?] at h
      split at h
      · obtain ⟨rfl, rfl⟩ := Prod.mk.inj (Option.some.inj h)
        exact List.suffix_cons c rest
      · exact (isSuffix_of_takeCoded? h).trans (List.suffix_cons c rest)
      · cases h

end Escape

/-- A malformed escape starts with its backslash, and ends the text before it. -/
theorem FirstBad.exists_append (h : FirstBad text bad) :
    ∃ front back, text = front ++ bad ∧ bad = '\\' :: back ∧ Escape.take? back = none := by
  induction h with
  | @here back none => exact ⟨[], back, rfl, rfl, none⟩
  | @plain c _ _ _ _ ih =>
      obtain ⟨front, back, rfl, hbad⟩ := ih
      exact ⟨c :: front, back, rfl, hbad⟩
  | passed some _ ih =>
      obtain ⟨front, back, rfl, hbad⟩ := ih
      obtain ⟨escape, rfl⟩ := Escape.isSuffix_of_take? some
      exact ⟨'\\' :: (escape ++ front), back, by simp, hbad⟩

/-- There is only one first malformed escape. -/
theorem FirstBad.unique {bad' : List Char} (h : FirstBad text bad) (h' : FirstBad text bad') :
    bad = bad' := by
  induction h with
  | here none =>
      cases h' with
      | here _ => rfl
      | plain ne _ => exact absurd rfl ne
      | passed some _ => cases none.symm.trans some
  | plain ne _ ih =>
      cases h' with
      | here _ => exact absurd rfl ne
      | plain _ later => exact ih later
      | passed _ _ => exact absurd rfl ne
  | passed some _ ih =>
      cases h' with
      | here none => cases none.symm.trans some
      | plain ne _ => exact absurd rfl ne
      | passed some' later =>
          cases some.symm.trans some'
          exact ih later

/-- A text has no value exactly if it has a malformed escape, and the first one is what is counted to. -/
theorem unescape_error_iff : unescape offset text = .error n ↔
    ∃ bad, FirstBad text bad ∧ n + Text.byteLength bad = offset + Text.byteLength text := by
  have hmap : ∀ {c : Char} {result : Except Nat (List Char)},
      (c :: ·) <$> result = .error n ↔ result = .error n := by
    intro c result
    cases result <;> simp [Functor.map, Except.map]
  fun_induction unescape offset text with
  | case1 offset =>
      constructor
      · exact nofun
      · rintro ⟨bad, h, -⟩
        cases h
  | case2 offset rest hnone =>
      constructor
      · intro h
        exact ⟨_, .here hnone, by rw [Except.error.inj h]⟩
      · rintro ⟨bad, h, hcount⟩
        obtain rfl := h.unique (.here hnone)
        exact congrArg Except.error (Nat.add_right_cancel hcount).symm
  | case3 offset rest value after hsome _ ih =>
      obtain ⟨escape, rfl⟩ := Escape.isSuffix_of_take? hsome
      have hcount : ∀ size, (offset + 1 + (Text.byteLength (escape ++ after) - Text.byteLength after) +
          Text.byteLength after = size ↔ offset + Text.byteLength ('\\' :: (escape ++ after)) = size) := by
        intro size
        rw [Text.byteLength, Text.byteLength_append, show '\\'.utf8Size = 1 from rfl]
        omega
      refine hmap.trans (Iff.trans ih ?_)
      constructor
      · rintro ⟨bad, h, hbad⟩
        exact ⟨bad, .passed hsome h, ((hcount _).1 hbad.symm).symm⟩
      · rintro ⟨bad, h, hbad⟩
        cases h with
        | here hnone => cases hnone.symm.trans hsome
        | plain ne _ => exact absurd rfl ne
        | passed hsome' h =>
            cases hsome'.symm.trans hsome
            exact ⟨bad, h, ((hcount _).2 hbad.symm).symm⟩
  | case4 offset c rest hplain ih =>
      rw [Text.byteLength, ← Nat.add_assoc]
      refine hmap.trans (Iff.trans ih ?_)
      constructor
      · rintro ⟨bad, h, hbad⟩
        exact ⟨bad, .plain hplain h, hbad⟩
      · rintro ⟨bad, h, hbad⟩
        cases h with
        | here _ => exact absurd rfl hplain
        | plain _ h => exact ⟨bad, h, hbad⟩
        | passed _ _ => exact absurd rfl hplain

/-! ### Braces -/

/-- How many pairs of braces a text has that stand for one brace each. -/
def bracePairs : List Char → Nat
  | '{' :: '{' :: rest => bracePairs rest + 1
  | '}' :: '}' :: rest => bracePairs rest + 1
  | _ :: rest => bracePairs rest
  | [] => 0

theorem bracePairs_cons (h : c ∉ ['{', '}']) (rest : List Char) :
    bracePairs (c :: rest) = bracePairs rest := by
  rw [bracePairs.eq_def]
  split <;> simp_all

/-- Other characters before a text make no pairs. -/
theorem bracePairs_append_of_plain {front : List Char} (h : ∀ c ∈ front, c ∉ ['{', '}']) (rest : List Char) :
    bracePairs (front ++ rest) = bracePairs rest := by
  induction front with
  | nil => rfl
  | cons c front ih =>
      rw [List.forall_mem_cons] at h
      rw [List.cons_append, bracePairs_cons h.1, ih h.2]

/-- A brace is not paired with one behind another character. -/
theorem bracePairs_append (h : c ∉ ['{', '}']) (front rest : List Char) :
    bracePairs (front ++ c :: rest) = bracePairs front + bracePairs (c :: rest) := by
  fun_induction bracePairs front with
  | case1 _ ih | case2 _ ih =>
      rw [List.cons_append, List.cons_append, bracePairs, ih]
      omega
  | case3 d front open_ close ih =>
      rw [← ih, List.cons_append]
      cases front <;> simp_all [bracePairs]
  | case4 => exact (Nat.zero_add _).symm

/-- Each pair of braces makes the text that is read one byte shorter. -/
theorem byteLength_of_singleBraces? (h : singleBraces? body = some text) :
    Text.byteLength body = Text.byteLength text + bracePairs body := by
  have hsize : '{'.utf8Size = 1 ∧ '}'.utf8Size = 1 := ⟨rfl, rfl⟩
  fun_induction singleBraces? body generalizing text with
  | case1 rest ih | case2 rest ih =>
      obtain ⟨later, hlater, rfl⟩ := Option.map_eq_some_iff.1 h
      have hrest := ih hlater
      simp only [Text.byteLength, bracePairs]
      omega
  | case3 => cases h
  | case4 c rest open_ close hole ih =>
      obtain ⟨later, hlater, rfl⟩ := Option.map_eq_some_iff.1 h
      have hrest := ih hlater
      have hpairs : bracePairs (c :: rest) = bracePairs rest := by
        rw [bracePairs]
        · exact open_
        · exact close
      rw [hpairs, Text.byteLength, Text.byteLength]
      omega
  | case5 =>
      obtain rfl := Option.some.inj h
      rfl

/-- Where the text that is read starts with a character, it is written there once,
or twice if it is a brace. -/
theorem singleBraces?_eq_cons (h : singleBraces? body = some (c :: text)) :
    ∃ later, singleBraces? later = some text ∧
    (body = c :: later ∨ c ∈ ['{', '}'] ∧ body = c :: c :: later) := by
  unfold singleBraces? at h
  split at h
  · obtain ⟨later, hlater, heq⟩ := Option.map_eq_some_iff.1 h
    cases heq
    exact ⟨_, hlater, .inr ⟨by decide, rfl⟩⟩
  · obtain ⟨later, hlater, heq⟩ := Option.map_eq_some_iff.1 h
    cases heq
    exact ⟨_, hlater, .inr ⟨by decide, rfl⟩⟩
  · cases h
  · obtain ⟨later, hlater, heq⟩ := Option.map_eq_some_iff.1 h
    cases heq
    exact ⟨_, hlater, .inl rfl⟩
  · cases h

theorem singleBraces?_eq_nil (h : singleBraces? body = some []) : body = [] := by
  unfold singleBraces? at h
  split at h <;> simp_all

/-- A character that is no brace is written as it is read. -/
theorem singleBraces?_eq_cons_of_plain (plain : c ∉ ['{', '}']) (h : singleBraces? body = some (c :: text)) :
    ∃ later, body = c :: later ∧ singleBraces? later = some text := by
  obtain ⟨later, hlater, hbody | ⟨hbrace, -⟩⟩ := singleBraces?_eq_cons h
  · exact ⟨later, hbody, hlater⟩
  · exact absurd hbrace plain

/-- Hexadecimal digits are written as they are read. -/
theorem takeWhile_singleBraces? (most : Nat) (h : singleBraces? body = some text) :
    ∃ digits later later', (body.take most).takeWhile Number.isHexDigit = digits ∧
      (text.take most).takeWhile Number.isHexDigit = digits ∧
      body = digits ++ later ∧ text = digits ++ later' ∧ singleBraces? later = some later' := by
  induction most generalizing body text with
  | zero => exact ⟨[], body, text, rfl, rfl, rfl, rfl, h⟩
  | succ most ih =>
      cases text with
      | nil =>
          obtain rfl := singleBraces?_eq_nil h
          exact ⟨[], [], [], rfl, rfl, rfl, rfl, h⟩
      | cons c text =>
          obtain ⟨later, hlater, hbody⟩ := singleBraces?_eq_cons h
          by_cases hdigit : Number.isHexDigit c = true
          · obtain rfl : body = c :: later := by
              refine hbody.resolve_right fun hbrace => ?_
              rcases List.mem_pair.1 hbrace.1 with rfl | rfl <;> exact absurd hdigit (by decide)
            obtain ⟨digits, rest, rest', htake, htake', rfl, rfl, hrest⟩ := ih hlater
            refine ⟨c :: digits, rest, rest', ?_, ?_, rfl, rfl, hrest⟩
            · rw [List.take_succ_cons, List.takeWhile_cons, if_pos hdigit, htake]
            · rw [List.take_succ_cons, List.takeWhile_cons, if_pos hdigit, htake']
          · have hstop : ∀ rest, ((c :: rest).take (most + 1)).takeWhile Number.isHexDigit = [] :=
              fun rest => by
              rw [List.take_succ_cons, List.takeWhile_cons, if_neg hdigit]
            refine ⟨[], body, c :: text, ?_, hstop text, rfl, rfl, h⟩
            rcases hbody with rfl | ⟨-, rfl⟩ <;> exact hstop _

namespace Escape

/-- A code point is written as it is read. -/
theorem takeCoded?_singleBraces? (least most : Nat) (h : singleBraces? body = some text) :
    (takeCoded? least most text = none → takeCoded? least most body = none) ∧
      ∀ value after, takeCoded? least most text = some (value, after) →
        ∃ later, takeCoded? least most body = some (value, later) ∧ singleBraces? later = some after := by
  obtain ⟨digits, later, later', htake, htake', rfl, rfl, hlater⟩ := takeWhile_singleBraces? most h
  simp only [takeCoded?, htake, htake', List.drop_left]
  split
  · exact ⟨fun _ => rfl, fun _ _ heq => absurd heq (Option.some_ne_none _).symm⟩
  · cases charOfNat? (hexValue digits) with
    | none => exact ⟨fun _ => rfl, fun _ _ heq => absurd heq (Option.some_ne_none _).symm⟩
    | some value =>
        refine ⟨fun hnone => absurd hnone (Option.some_ne_none _), fun _ _ heq => ?_⟩
        cases heq
        exact ⟨later, rfl, hlater⟩

/-- What a backslash stands for does not depend on whether braces behind the escape are written twice. -/
theorem take?_singleBraces? (h : singleBraces? body = some text) :
    (take? text = none → take? body = none) ∧ ∀ value after, take? text = some (value, after) →
      ∃ later, take? body = some (value, later) ∧ singleBraces? later = some after := by
  cases text with
  | nil =>
      obtain rfl := singleBraces?_eq_nil h
      exact ⟨id, fun _ _ heq => absurd heq (Option.some_ne_none _).symm⟩
  | cons c text =>
      obtain ⟨later, hlater, hbody⟩ := singleBraces?_eq_cons h
      by_cases hbrace : c ∈ ['{', '}']
      · -- no escape starts with a brace, however often it is written
        have hnone : ∀ rest, take? (c :: rest) = none := fun rest => by
          rcases List.mem_pair.1 hbrace with rfl | rfl <;> rfl
        rw [hnone]
        refine ⟨fun _ => ?_, fun _ _ heq => absurd heq (Option.some_ne_none _).symm⟩
        rcases hbody with rfl | ⟨-, rfl⟩ <;> exact hnone _
      · obtain rfl := hbody.resolve_right fun h => hbrace h.1
        simp only [take?]
        cases simple.lookup c with
        | some value =>
            refine ⟨fun hnone => absurd hnone (Option.some_ne_none _), fun _ _ heq => ?_⟩
            cases heq
            exact ⟨later, rfl, hlater⟩
        | none =>
            cases coded.lookup c with
            | some bounds => exact takeCoded?_singleBraces? bounds.1 bounds.2 hlater
            | none => exact ⟨fun _ => rfl, fun _ _ heq => absurd heq (Option.some_ne_none _).symm⟩

end Escape

/-- The first malformed escape of a text is that of the text with its braces written twice. -/
theorem FirstBad.spread (h : FirstBad text bad) (hbody : singleBraces? body = some text) :
    ∃ bad', FirstBad body bad' ∧ singleBraces? bad' = some bad := by
  have hslash : '\\' ∉ ['{', '}'] := by decide
  induction h generalizing body with
  | here none =>
      obtain ⟨back, rfl, hback⟩ := singleBraces?_eq_cons_of_plain hslash hbody
      exact ⟨_, .here ((Escape.take?_singleBraces? hback).1 none), hbody⟩
  | plain ne _ ih =>
      obtain ⟨later, hlater, rfl | ⟨-, rfl⟩⟩ := singleBraces?_eq_cons hbody
      · obtain ⟨bad', hbad', hsame⟩ := ih hlater
        exact ⟨bad', .plain ne hbad', hsame⟩
      · obtain ⟨bad', hbad', hsame⟩ := ih hlater
        exact ⟨bad', .plain ne (.plain ne hbad'), hsame⟩
  | passed some _ ih =>
      obtain ⟨rest, rfl, hrest⟩ := singleBraces?_eq_cons_of_plain hslash hbody
      obtain ⟨later, htake, hlater⟩ := (Escape.take?_singleBraces? hrest).2 _ _ some
      obtain ⟨bad', hbad', hsame⟩ := ih hlater
      exact ⟨bad', .passed htake hbad', hsame⟩

/-! ### Values -/

/-- Marks are of one byte each and make no pairs of braces. -/
theorem marks_plain {marks : List Char} (h : ∀ c ∈ marks, isMark c = true) :
    Text.byteLength marks = marks.length ∧ ∀ c ∈ marks, c ∉ ['{', '}'] := by
  have hmark : ∀ c, isMark c = true → c.utf8Size = 1 ∧ c ∉ ['{', '}'] := by
    intro c hc
    simp only [isMark, Bool.or_eq_true, decide_eq_true_eq] at hc
    rcases hc with rfl | rfl <;> exact ⟨rfl, by decide⟩
  refine ⟨?_, fun c hc => (hmark c (h c hc)).2⟩
  induction marks with
  | nil => rfl
  | cons c marks ih =>
      rw [List.forall_mem_cons] at h
      rw [Text.byteLength, (hmark c h.1).1, ih h.2, List.length_cons, Nat.add_comm]

/-- A plain string has the value of what stands between its quotes. -/
theorem regular_eq {suffix : List Char} (h : suffix ∈ [] :: suffixes) :
    regular ('"' :: (body ++ '"' :: suffix)) = unescape 1 body := by
  have hlexeme : '"' :: (body ++ '"' :: suffix) = between body ++ suffix := by simp [between]
  have hsuffix : withoutSuffix (between body ++ suffix) = between body := by
    rcases List.mem_cons.1 h with rfl | h
    · rw [List.append_nil]
      exact withoutSuffix_between [] body
    · exact withoutSuffix_append _ h
  rw [regular, hlexeme, hsuffix]
  exact congrArg (fun body? => unescape 1 (body?.getD (between body))) (between?_append ['"'] body ['"'])

/-- A character literal is at fault where a malformed escape stands, or as a whole. -/
theorem character_error (h : character ('\'' :: (body ++ ['\''])) = .error n) :
    unescape 1 body = .error n ∨ n = 0 ∧ ∃ value, unescape 1 body = .ok value ∧ value.length ≠ 1 := by
  have hbetween : between? ['\''] ['\''] ('\'' :: (body ++ ['\''])) = some body :=
    between?_append ['\''] body ['\'']
  rw [character, hbetween, Option.getD_some] at h
  cases hread : unescape 1 body with
  | error m =>
      rw [hread] at h
      obtain rfl := Except.error.inj h
      exact .inl rfl
  | ok value =>
      rw [hread] at h
      refine .inr ⟨?_, value, rfl, fun hone => ?_⟩
      · simp only [bind, Except.bind] at h
        split at h
        · cases h
        · exact (Except.error.inj h).symm
      · obtain ⟨c, rfl⟩ := List.length_eq_one_iff.1 hone
        cases h

/-- A string with holes that is at fault has none, and with single braces its text has a malformed escape. -/
theorem interpolated_error {lexeme : List Char} (h : interpolated lexeme = .error n) : ∃ marks body text,
    lexeme = marks ++ '"' :: (body ++ ['"']) ∧ (∀ c ∈ marks, isMark c = true) ∧ '@' ∉ marks ∧
      singleBraces? body = some text ∧ unescape (marks.length + 1) text = .error n := by
  have hmarks : ∀ c ∈ lexeme.takeWhile isMark, isMark c = true := List.all_eq_true.1 List.all_takeWhile
  obtain ⟨quoted, hquoted⟩ := List.takeWhile_prefix isMark (l := lexeme)
  have hdrop : lexeme.drop (lexeme.takeWhile isMark).length = quoted :=
    (congrArg (List.drop _) hquoted.symm).trans List.drop_left
  unfold interpolated at h
  dsimp only at h
  rw [hdrop] at h
  cases hbetween : between? ['"'] ['"'] quoted with
  | none =>
      -- without quotes there is no text that could be at fault
      rw [hbetween, Option.getD_none] at h
      change (if _ then _ else some <$> unescape _ [] : Except Nat (Option (List Char))) = _ at h
      split at h
      · cases h
      · rw [unescape] at h
        cases h
  | some body =>
      rw [hbetween, Option.getD_some] at h
      split at h
      · cases h
      · rename_i text hbraces
        split at h
        · cases h
        · rename_i plain
          rw [eq_of_between? hbetween] at hquoted
          refine ⟨_, body, text, hquoted.symm, hmarks, plain, hbraces, ?_⟩
          cases hread : unescape ((lexeme.takeWhile isMark).length + 1) text with
          | ok value =>
              rw [hread] at h
              cases h
          | error m =>
              rw [hread] at h
              exact congrArg Except.error (Except.error.inj h)

end Graft.Literal
