/-
Module: Graft.Proofs.Program.Spelled
Purpose: The texts that spell metadata names, and what is read of them.
Main exports: MetadataName.Spelled, MetadataName.splitArity_segment, MetadataName.parse_of_spelled

A metadata name may have a point or a plus sign between two segments.  Words have neither, nor the mark
before a number of type parameters, so the segments are read as they were written.
-/
import Graft.Proofs.Program.Identity

namespace Graft.MetadataName

/-! ### Spellings -/

/-- A text has some segments, each two with a point or a plus sign between them. -/
inductive Spelled : List String → String → Prop where
  | last (segment : String) : Spelled [segment] segment
  | cons (segment : String) {rest : List String} {text : String} {separator : String}
      (mark : separator = "." ∨ separator = "+") (spelled : Spelled rest text) :
      Spelled (segment :: rest) (segment ++ separator ++ text)

/-- Segments with one and the same sign between them. -/
theorem spelled_intercalate {segments : List String} (hne : segments ≠ []) {separator : String}
    (mark : separator = "." ∨ separator = "+") : Spelled segments (separator.intercalate segments) := by
  induction segments with
  | nil => exact absurd rfl hne
  | cons segment rest ih =>
      cases rest with
      | nil =>
          rw [String.intercalate_singleton]
          exact .last segment
      | cons next rest =>
          rw [String.intercalate_cons_cons]
          exact .cons segment mark (ih (by simp))

/-! ### Segments -/

/-- A text without the signs that a metadata name is taken apart by. -/
structure Plain (segment : String) : Prop where
  ne_empty : segment ≠ ""
  point : '.' ∉ segment.toList
  plus : '+' ∉ segment.toList
  colon : ':' ∉ segment.toList

theorem plain_segment {name : String} (word : Text.IsWord name) (arity : Nat) :
    Plain (segment name arity) := by
  have hnot : ∀ c : Char, c ∉ name.toList → c ≠ '`' → c.isDigit = false →
      c ∉ (segment name arity).toList := by
    intro c hname htick hdigit hc
    rw [toList_segment] at hc
    rcases List.mem_append.1 hc with hc | hc
    · exact hname hc
    · split at hc
      · cases hc
      · rcases List.mem_cons.1 hc with hc | hc
        · exact htick hc
        · rw [Nat.isDigit_of_mem_toDigits (by decide) (by decide) hc] at hdigit
          cases hdigit
  refine ⟨fun hempty => ?_, hnot '.' word.point_not_mem (by decide) rfl,
    hnot '+' (word.not_mem (by decide +kernel) (by decide +kernel)) (by decide) rfl,
    hnot ':' (word.not_mem (by decide +kernel) (by decide +kernel)) (by decide) rfl⟩
  obtain ⟨first, rest, hfirst, -⟩ := word
  have htext := congrArg String.toList hempty
  rw [toList_segment, hfirst] at htext
  cases htext

/-- Decimal digits give the number that they were made of. -/
theorem arity?_toDigits {n : Nat} (small : n < 1 <<< 64) : arity? (Nat.toDigits 10 n) = some n := by
  have hdigits : ∀ c ∈ Nat.toDigits 10 n, c.isDigit := fun c hc =>
    Nat.isDigit_of_mem_toDigits (by decide) (by decide) hc
  have hplus : (Nat.toDigits 10 n).head? ≠ some '+' := fun hhead => by
    cases hdigits '+' (List.mem_of_mem_head? hhead)
  have hvalue : (Nat.toDigits 10 n).foldl (fun m c => m * 10 + (c.toNat - '0'.toNat)) 0 = n := by
    have hread := Nat.ofDigitChars_ten_toDigits (n := n)
    rw [Nat.ofDigitChars_eq_foldl] at hread
    simpa only [Nat.mul_comm 10] using hread
  rw [arity?, if_neg hplus, if_pos ⟨Nat.toDigits_ne_nil, List.all_eq_true.2 hdigits⟩, hvalue, if_pos small]

/-- A segment is read as the name and the number of type parameters that it was made of;
none is read as no number. -/
theorem splitArity_segment {name : String} (word : Text.IsWord name) {arity : Nat}
    (small : arity < 1 <<< 64) :
    splitArity (segment name arity).toList = (name, if arity = 0 then none else some arity) := by
  rw [splitArity, toList_segment]
  by_cases hzero : arity = 0
  · have hall : (name.toList.reverse.takeWhile (· ≠ '`')) = name.toList.reverse := by
      refine List.takeWhile_eq_self_iff.2 fun c hc => decide_eq_true fun htick => ?_
      exact word.tick_not_mem (htick ▸ List.mem_reverse.1 hc)
    rw [if_pos hzero, if_pos hzero, List.append_nil, hall, List.reverse_reverse, if_neg (Nat.lt_irrefl _),
      String.ofList_toList]
  · have hsuffix : ((name.toList ++ '`' :: Nat.toDigits 10 arity).reverse.takeWhile (· ≠ '`')).reverse =
        Nat.toDigits 10 arity := by
      have hdigits : ∀ c ∈ (Nat.toDigits 10 arity).reverse, decide (c ≠ '`') = true := fun c hc => by
        refine decide_eq_true fun htick => ?_
        have hdigit := Nat.isDigit_of_mem_toDigits (by decide) (by decide) (List.mem_reverse.1 hc)
        rw [htick] at hdigit
        cases hdigit
      rw [List.reverse_append, List.reverse_cons, List.append_assoc, List.takeWhile_append_of_pos hdigits]
      simp
    have hlength : (name.toList ++ '`' :: Nat.toDigits 10 arity).length - (Nat.toDigits 10
        arity).length - 1 = name.toList.length := by
      rw [List.length_append, List.length_cons]
      omega
    rw [if_neg hzero, if_neg hzero, hsuffix, if_pos (by rw [List.length_append, List.length_cons]; omega),
      arity?_toDigits small]
    dsimp only
    rw [hlength, List.take_left, String.ofList_toList]

/-! ### Texts -/

theorem splitText_of_plain {isSeparator : Char → Bool} {text : List Char}
    (plain : ∀ c ∈ text, isSeparator c = false) :
    QualifiedName.splitText isSeparator text = [text] := by
  induction text with
  | nil => rfl
  | cons c rest ih =>
      rw [QualifiedName.splitText, plain c List.mem_cons_self,
        ih fun d hd => plain d (List.mem_cons_of_mem _ hd)]
      rfl

theorem splitText_append {isSeparator : Char → Bool} {text more : List Char} {mark : Char}
    (plain : ∀ c ∈ text, isSeparator c = false) (separates : isSeparator mark = true) :
    QualifiedName.splitText isSeparator (text ++ mark :: more) =
      text :: QualifiedName.splitText isSeparator more := by
  induction text with
  | nil =>
      rw [List.nil_append, QualifiedName.splitText, separates]
      rfl
  | cons c rest ih =>
      rw [List.cons_append, QualifiedName.splitText, plain c List.mem_cons_self,
        ih fun d hd => plain d (List.mem_cons_of_mem _ hd)]
      rfl

variable {segments : List String} {text : String}

theorem splitText_of_spelled (spelled : Spelled segments text)
    (plain : ∀ segment ∈ segments, Plain segment) :
    QualifiedName.splitText (fun c => c = '.' || c = '+') text.toList = segments.map String.toList := by
  have hplain : ∀ segment : String, Plain segment → ∀ c ∈ segment.toList, (c = '.' || c = '+') = false := by
    intro segment hsegment c hc
    have hpoint : c ≠ '.' := fun h => hsegment.point (h ▸ hc)
    have hplus : c ≠ '+' := fun h => hsegment.plus (h ▸ hc)
    simp [hpoint, hplus]
  induction spelled with
  | last segment => exact splitText_of_plain (hplain segment (plain segment List.mem_cons_self))
  | cons segment mark _ ih =>
      have hrest := ih fun other hother => plain other (List.mem_cons_of_mem _ hother)
      have hsegment := hplain segment (plain segment List.mem_cons_self)
      rw [List.map_cons, ← hrest, String.toList_append, String.toList_append, List.append_assoc]
      rcases mark with rfl | rfl
      · exact splitText_append hsegment rfl
      · exact splitText_append hsegment rfl

theorem colon_not_mem_of_spelled (spelled : Spelled segments text)
    (plain : ∀ segment ∈ segments, Plain segment) :
    ':' ∉ text.toList := by
  induction spelled with
  | last segment => exact (plain segment List.mem_cons_self).colon
  | cons segment mark _ ih =>
      have hrest := ih fun other hother => plain other (List.mem_cons_of_mem _ hother)
      have hsegment := (plain segment List.mem_cons_self).colon
      rcases mark with rfl | rfl
      · simp [hsegment, hrest]
      · simp [hsegment, hrest]

/-- The segments of a spelled name are read as they are. -/
theorem parse_of_spelled (spelled : Spelled segments text) (plain : ∀ segment ∈ segments, Plain segment) :
    parse text = segments.map fun segment => splitArity segment.toList := by
  have hmark : QualifiedName.withoutGlobalMark text = text.toList := by
    rw [QualifiedName.withoutGlobalMark]
    refine if_neg fun hprefix => colon_not_mem_of_spelled spelled plain ?_
    exact (List.isPrefixOf_iff_prefix.1 hprefix).subset (by decide)
  have hnonempty : ∀ segment ∈ segments.map String.toList, decide (segment ≠ []) = true := by
    intro segment hsegment
    obtain ⟨segment, hmem, rfl⟩ := List.mem_map.1 hsegment
    exact decide_eq_true fun hnil => (plain segment hmem).ne_empty (String.toList_eq_nil_iff.1 hnil)
  rw [parse, hmark, splitText_of_spelled spelled plain, List.filter_eq_self.2 hnonempty, List.map_map]
  rfl

end Graft.MetadataName
