/-
Module: Graft.Proofs.Literal.Seam
Purpose: How far literals reach does not depend on what follows, as long as it starts with a stop.
Main exports: Text.Stops, Text.Seam, Number.extent_append, Literal.reach_append

A literal is read with some characters behind it in sight.  A blank or a semicolon goes on with none,
so a text may be cut behind a literal and go on with one of these instead.
-/
import Graft.Literal.Extent
import Graft.Literal.Number

namespace Graft

/-! ### Stops -/

namespace Text

/-- A text that goes on with nothing, with a space, with a new line or with a semicolon. -/
def Stops (v : List Char) : Prop := ∀ c ∈ v.head?, c = ' ' ∨ c = '\n' ∨ c = ';'

/-- Where one text is cut off from another, no identifier runs on. -/
def Seam (a v : List Char) : Prop :=
  a.getLast?.any isIdentContinue = false ∨ v.head?.any isIdentContinue = false

namespace Stops

variable {v : List Char}

theorem any_eq_false {p : Char → Bool} (h : Stops v) (hp : p ' ' = false ∧ p '\n' = false ∧ p ';' = false) :
    v.head?.any p = false := by
  cases v with
  | nil => rfl
  | cons c rest => rcases h c rfl with rfl | rfl | rfl <;> simp [hp]

theorem head_ne {c : Char} (h : Stops v) (hc : c ≠ ' ' ∧ c ≠ '\n' ∧ c ≠ ';') : v.head? ≠ some c := by
  rintro hv
  rcases h c hv with rfl | rfl | rfl
  · exact hc.1 rfl
  · exact hc.2.1 rfl
  · exact hc.2.2 rfl

theorem not_identContinue (h : Stops v) : v.head?.any isIdentContinue = false :=
  h.any_eq_false ⟨by decide, by decide, by decide⟩

theorem not_digit (h : Stops v) : v.head?.any Char.isDigit = false :=
  h.any_eq_false ⟨by decide, by decide, by decide⟩

end Stops

end Text

open Text (Stops Seam)

/-! ### Runs of characters -/

namespace Number

variable {p : Char → Bool} {z v v' : List Char}

/-- A run that ends inside a text does not depend on what follows the text. -/
theorem runLength_append_of_lt (fit : runLength p (z ++ v) < z.length) :
    runLength p (z ++ v') = runLength p (z ++ v) := by
  induction z with
  | nil => simp at fit
  | cons c rest ih =>
      unfold runLength at fit ih ⊢
      rw [List.cons_append, List.takeWhile_cons] at fit ⊢
      rw [List.cons_append, List.takeWhile_cons]
      split
      · rename_i hc
        rw [if_pos hc, List.length_cons, List.length_cons, Nat.add_lt_add_iff_right] at fit
        rw [List.length_cons, List.length_cons, ih fit]
      · rfl

/-- A run that ends with a text ends there if what follows does not go on with it. -/
theorem runLength_append (fit : runLength p (z ++ v) ≤ z.length) (stop : v'.head?.any p = false) :
    runLength p (z ++ v') = runLength p (z ++ v) := by
  induction z with
  | nil =>
      have hv : runLength p ([] ++ v) = 0 := Nat.le_zero.1 fit
      rw [hv]
      cases v' with
      | nil => rfl
      | cons c rest =>
          have hc : p c = false := stop
          simp [runLength, hc]
  | cons c rest ih =>
      unfold runLength at fit ih ⊢
      rw [List.cons_append, List.takeWhile_cons] at fit ⊢
      rw [List.cons_append, List.takeWhile_cons]
      split
      · rename_i hc
        rw [if_pos hc, List.length_cons, List.length_cons, Nat.add_le_add_iff_right] at fit
        rw [List.length_cons, List.length_cons, ih fit]
      · rfl

/-- A run that could go on behind a text ends before it does. -/
theorem runLength_lt_of_le {c : Char} (hc : p c = true) (fit : runLength p (z ++ c :: v) ≤ z.length) :
    runLength p (z ++ c :: v) < z.length := by
  induction z with
  | nil =>
      have hpos : 0 < runLength p (c :: v) := by simp [runLength, hc]
      exact absurd fit (Nat.not_le.2 hpos)
  | cons d rest ih =>
      unfold runLength at fit ih ⊢
      rw [List.cons_append, List.takeWhile_cons] at fit ⊢
      split
      · rename_i hd
        rw [if_pos hd, List.length_cons, List.length_cons, Nat.add_le_add_iff_right] at fit
        rw [List.length_cons, List.length_cons, Nat.add_lt_add_iff_right]
        exact ih fit
      · exact Nat.succ_pos _

/-! ### Numbers -/

theorem drop_append_le {n : Nat} (h : n ≤ z.length) : (z ++ v).drop n = z.drop n ++ v :=
  List.drop_append_of_le_length h

/-- The length of something that ends with digits, `k` characters and the digits; zero if there are
none. -/
def withDigits (k : Nat) (w : List Char) : Nat :=
  if w.head?.any Char.isDigit then k + runLength isDigitOrSeparator w else 0

theorem withDigits_of_digit {k : Nat} {w : List Char} (h : w.head?.any Char.isDigit = true) :
    withDigits k w = k + runLength isDigitOrSeparator w := if_pos h

theorem withDigits_of_not {k : Nat} {w : List Char} (h : w.head?.any Char.isDigit = false) :
    withDigits k w = 0 := if_neg (by simp [h])

/-- Digits that are there are at least one. -/
theorem lt_withDigits {k : Nat} {w : List Char} (h : w.head?.any Char.isDigit = true) :
    k < withDigits k w := by
  rw [withDigits_of_digit h]
  cases w with
  | nil => cases h
  | cons d rest =>
      have hd : d.isDigit = true := h
      have hpos : 0 < runLength isDigitOrSeparator (d :: rest) :=
        runLength_pos (by simp [isDigitOrSeparator, hd])
      omega

theorem withDigits_append {k : Nat} (fit : withDigits k (z ++ v) ≤ k + z.length) (stop : Stops v') :
    withDigits k (z ++ v') = withDigits k (z ++ v) := by
  cases z with
  | nil =>
      rw [List.nil_append, List.nil_append] at *
      rw [withDigits_of_not stop.not_digit]
      cases hv : v.head?.any Char.isDigit with
      | false => rw [withDigits_of_not hv]
      | true => exact absurd fit (Nat.not_le.2 (lt_withDigits hv))
  | cons d rest =>
      cases hd : d.isDigit with
      | false =>
          rw [withDigits_of_not (w := d :: rest ++ v') hd, withDigits_of_not (w := d :: rest ++ v) hd]
      | true =>
          rw [withDigits_of_digit (w := d :: rest ++ v) hd] at fit
          rw [withDigits_of_digit (w := d :: rest ++ v') hd, withDigits_of_digit (w := d :: rest ++ v) hd]
          rw [runLength_append (v := v) (by omega) (stop.any_eq_false ⟨by decide, by decide, by decide⟩)]

theorem fractionLength_point (w : List Char) : fractionLength ('.' :: w) = withDigits 1 w := by
  cases w <;> rfl

theorem fractionLength_of_ne {w : List Char} (h : w.head? ≠ some '.') : fractionLength w = 0 := by
  unfold fractionLength
  split
  · exact absurd rfl h
  · rfl

theorem fractionLength_append (fit : fractionLength (z ++ v) ≤ z.length) (stop : Stops v') :
    fractionLength (z ++ v') = fractionLength (z ++ v) := by
  cases z with
  | nil =>
      have hv : fractionLength v = 0 := Nat.le_zero.1 fit
      rw [List.nil_append, List.nil_append, hv]
      exact fractionLength_of_ne (stop.head_ne (by decide))
  | cons c rest =>
      by_cases hc : c = '.'
      · subst hc
        rw [List.cons_append, fractionLength_point] at fit
        rw [List.cons_append, List.cons_append, fractionLength_point, fractionLength_point]
        exact withDigits_append (by rw [List.length_cons] at fit; omega) stop
      · have hother : ∀ w : List Char, (c :: rest ++ w).head? ≠ some '.' := fun w hw =>
          hc (Option.some.inj hw)
        rw [fractionLength_of_ne (hother v'), fractionLength_of_ne (hother v)]

/-- The length of the sign of an exponent. -/
def signLength (w : List Char) : Nat := if w.head?.any (fun s => s = '+' || s = '-') then 1 else 0

theorem exponentLength_cons (e : Char) (w : List Char) : exponentLength (e :: w) =
    if (e = 'e' || e = 'E') = true then withDigits (1 + signLength w) (w.drop (signLength w)) else 0 :=
  rfl

theorem exponentLength_append (fit : exponentLength (z ++ v) ≤ z.length) (stop : Stops v') :
    exponentLength (z ++ v') = exponentLength (z ++ v) := by
  have hstop : signLength v' = 0 :=
    if_neg (by simp [stop.any_eq_false (p := fun s => s = '+' || s = '-') (by decide)])
  cases z with
  | nil =>
      have hv : exponentLength v = 0 := Nat.le_zero.1 fit
      rw [List.nil_append, List.nil_append, hv]
      cases v' with
      | nil => rfl
      | cons c rest => rcases stop c rfl with rfl | rfl | rfl <;> rfl
  | cons e rest =>
      rw [List.cons_append, exponentLength_cons] at fit
      rw [List.cons_append, List.cons_append, exponentLength_cons, exponentLength_cons]
      by_cases he : (e = 'e' || e = 'E') = true
      · rw [if_pos he] at fit
        rw [if_pos he, if_pos he]
        cases rest with
        | nil =>
            rw [List.nil_append, List.nil_append] at *
            rw [hstop, List.drop_zero, withDigits_of_not stop.not_digit]
            cases hv : (v.drop (signLength v)).head?.any Char.isDigit with
            | false => rw [withDigits_of_not hv]
            | true =>
                have hlt := lt_withDigits (k := 1 + signLength v) hv
                simp only [List.length_cons, List.length_nil] at fit
                omega
        | cons s rest =>
            have hsign : ∀ w, signLength (s :: rest ++ w) = signLength [s] := fun _ => rfl
            rw [hsign] at fit
            rw [hsign, hsign]
            have hle : signLength [s] ≤ 1 := by
              unfold signLength
              split <;> omega
            have hdrop : ∀ w, (s :: rest ++ w).drop (signLength [s]) =
                (s :: rest).drop (signLength [s]) ++ w := fun w =>
              List.drop_append_of_le_length (by rw [List.length_cons]; omega)
            rw [hdrop] at fit
            rw [hdrop, hdrop]
            refine withDigits_append ?_ stop
            rw [List.length_drop]
            simp only [List.length_cons] at fit ⊢
            omega
      · rw [if_neg he, if_neg he]

/-- The extent of a decimal number that ends inside a text. -/
theorem decimalExtent_append (fit : (decimalExtent (z ++ v)).count ≤ z.length) (stop : Stops v') :
    decimalExtent (z ++ v') = decimalExtent (z ++ v) := by
  have hreal : v'.head?.any isRealSuffix = false :=
    stop.any_eq_false ⟨by decide, by decide, by decide⟩
  have hint : v'.head?.any isIntSuffix = false :=
    stop.any_eq_false ⟨by decide, by decide, by decide⟩
  have hdigit : v'.head?.any isDigitOrSeparator = false :=
    stop.any_eq_false ⟨by decide, by decide, by decide⟩
  unfold decimalExtent at fit ⊢
  dsimp only at fit ⊢
  generalize hwhole : runLength isDigitOrSeparator (z ++ v) = whole at fit ⊢
  generalize hfraction : fractionLength ((z ++ v).drop whole) = fraction at fit ⊢
  generalize hexponent : exponentLength ((z ++ v).drop (whole + fraction)) = exponent at fit ⊢
  have hcount : whole + fraction + exponent ≤ z.length := by
    split at fit
    · dsimp only at fit
      omega
    · split at fit <;> dsimp only at fit <;> omega
  have hwhole' : runLength isDigitOrSeparator (z ++ v') = whole := by
    rw [runLength_append (v := v) (by omega) hdigit, hwhole]
  have hfraction' : fractionLength ((z ++ v').drop whole) = fraction := by
    rw [drop_append_le (by omega)] at hfraction ⊢
    rw [fractionLength_append (v := v) (by rw [hfraction, List.length_drop]; omega) stop, hfraction]
  have hexponent' : exponentLength ((z ++ v').drop (whole + fraction)) = exponent := by
    rw [drop_append_le (by omega)] at hexponent ⊢
    rw [exponentLength_append (v := v) (by rw [hexponent, List.length_drop]; omega) stop, hexponent]
  rw [hwhole', hfraction', hexponent']
  rw [drop_append_le hcount] at fit ⊢
  rw [drop_append_le hcount]
  -- what is left of the text decides on the suffix
  cases hleft : z.drop (whole + fraction + exponent) with
  | nil =>
      have hlength : z.length - (whole + fraction + exponent) = 0 := by
        rw [← List.length_drop, hleft, List.length_nil]
      rw [hleft] at fit
      rw [List.nil_append, List.nil_append] at *
      have hv : v.head?.any isRealSuffix = false := by
        refine Bool.eq_false_iff.2 fun hv => ?_
        rw [if_pos hv] at fit
        dsimp only at fit
        omega
      rw [hv] at fit
      rw [hreal, hv]
      simp only [Bool.false_eq_true, if_false] at fit ⊢
      split
      · rename_i hzero
        rw [if_pos hzero] at fit
        dsimp only at fit
        have hsuffix := runLength_append (p := isIntSuffix) (z := []) (v := v)
          (by rw [List.nil_append, List.length_nil]; omega) hint
        rw [List.nil_append, List.nil_append] at hsuffix
        rw [hsuffix]
      · rfl
  | cons c rest =>
      rw [hleft] at fit
      simp only [List.cons_append, List.head?_cons, Option.any_some] at fit ⊢
      split
      · rfl
      · rename_i hc
        rw [if_neg hc] at fit
        split
        · rename_i hzero
          rw [if_pos hzero] at fit
          dsimp only at fit
          have hlength : z.length - (whole + fraction + exponent) = rest.length + 1 := by
            rw [← List.length_drop, hleft, List.length_cons]
          have hsuffix := runLength_append (p := isIntSuffix) (z := c :: rest) (v := v)
            (by rw [List.cons_append, List.length_cons]; omega) hint
          rw [List.cons_append, List.cons_append] at hsuffix
          rw [hsuffix]
        · rfl

/-- The extent of a number that ends inside a text. -/
theorem extent_append (hz : z ≠ []) (fit : (extent (z ++ v)).count ≤ z.length) (stop : Stops v') :
    extent (z ++ v') = extent (z ++ v) := by
  have hbased : ∀ (mark : Char) (w : List Char), isBaseMark mark = true → extent ('0' :: mark :: w) =
      ⟨2 + runLength (fun c => isHexDigit c || c = '_') w +
        runLength isIntSuffix (w.drop (runLength (fun c => isHexDigit c || c = '_') w)), false⟩ := by
    intro mark w hmark
    simp [extent, hmark]
  have hdecimal : ∀ w : List Char, (¬∃ mark rest, w = '0' :: mark :: rest ∧ isBaseMark mark = true) →
      extent w = decimalExtent w := by
    intro w hw
    unfold extent
    split
    · rename_i mark rest
      rw [if_neg fun hmark => hw ⟨mark, rest, rfl, hmark⟩]
    · rfl
  by_cases hbase : ∃ mark rest, z ++ v = '0' :: mark :: rest ∧ isBaseMark mark = true
  · obtain ⟨mark, rest, heq, hmark⟩ := hbase
    rw [heq, hbased mark rest hmark] at fit
    dsimp only at fit
    match z, hz with
    | [c], _ =>
        simp only [List.length_cons, List.length_nil] at fit
        omega
    | c :: d :: z, _ =>
        simp only [List.cons_append, List.cons.injEq] at heq
        obtain ⟨rfl, rfl, rfl⟩ := heq
        simp only [List.cons_append]
        rw [hbased _ _ hmark, hbased _ _ hmark]
        simp only [List.length_cons] at fit
        have hdigits := runLength_append (p := fun c => isHexDigit c || c = '_') (z := z) (v := v)
          (by omega)
          (stop.any_eq_false ⟨by decide, by decide, by decide⟩)
        rw [hdigits]
        rw [drop_append_le (by omega)] at fit ⊢
        rw [drop_append_le (by omega)]
        rw [runLength_append (v := v) (p := isIntSuffix) (by rw [List.length_drop]; omega)
          (stop.any_eq_false ⟨by decide, by decide, by decide⟩)]
  · rw [hdecimal _ hbase] at fit ⊢
    rw [hdecimal, decimalExtent_append fit stop]
    rintro ⟨mark, rest, heq, hmark⟩
    match z, hz with
    | [c], _ =>
        rw [List.singleton_append, List.cons.injEq] at heq
        have hv' := stop.any_eq_false (p := isBaseMark) ⟨by decide, by decide, by decide⟩
        rw [heq.2] at hv'
        simp [hmark] at hv'
    | c :: d :: z, _ =>
        simp only [List.cons_append, List.cons.injEq] at heq
        exact hbase ⟨mark, z ++ v, by simp [heq.1, heq.2.1], hmark⟩

/-- Whether a number starts a text whose first piece ends inside it. -/
theorem starts_append {c : Char} (fit : starts (c :: z ++ v) = true →
      (extent (c :: z ++ v)).count ≤ z.length + 1) (stop : Stops v') :
    starts (c :: z ++ v') = starts (c :: z ++ v) := by
  cases z with
  | cons d rest => rfl
  | nil =>
      have hcons : ∀ w, starts (c :: w) = (c.isDigit || (c = '.' && w.head?.any Char.isDigit)) :=
        fun _ => rfl
      simp only [List.cons_append, List.nil_append] at fit ⊢
      rw [hcons, hcons, stop.not_digit, Bool.and_false, Bool.or_false]
      by_cases hc : c.isDigit
      · simp [hc]
      · by_cases hv : (c = '.' && v.head?.any Char.isDigit) = true
        · have hstarts : starts (c :: v) = true := by rw [hcons, hv, Bool.or_true]
          have hfit := fit hstarts
          exfalso
          simp only [Bool.and_eq_true, decide_eq_true_eq] at hv
          obtain ⟨rfl, hv⟩ := hv
          cases v with
          | nil => cases hv
          | cons d v =>
              have hd : d.isDigit = true := hv
              have hrun : 0 < runLength isDigitOrSeparator (d :: v) :=
                runLength_pos (by simp [isDigitOrSeparator, hd])
              have hwhole : runLength isDigitOrSeparator ('.' :: d :: v) = 0 := rfl
              have hfraction : fractionLength ('.' :: d :: v) =
                  1 + runLength isDigitOrSeparator (d :: v) := by
                simp [fractionLength, hd]
              have hextent : extent ('.' :: d :: v) = decimalExtent ('.' :: d :: v) := rfl
              rw [hextent] at hfit
              unfold decimalExtent at hfit
              dsimp only at hfit
              rw [hwhole, List.drop_zero, hfraction] at hfit
              simp only [List.length_nil] at hfit
              split at hfit
              · dsimp only at hfit
                omega
              · split at hfit <;> dsimp only at hfit <;> omega
        · simp only [Bool.not_eq_true] at hv
          rw [hv, Bool.or_false]

end Number

/-! ### Strings and characters -/

namespace Literal

variable {x r v v' : List Char} {c : Char}

/-- Every open level takes a character to close. -/
theorem add_length_le_reach (stack : List Level) (count : Nat) (text : List Char)
    (closed : (reach stack count text).closed = true) :
    count + stack.length ≤ (reach stack count text).count := by
  fun_induction reach stack count text with
  | case1 => simp
  | case2 count first cuts outside outer => simp [Extent.unclosed] at closed
  | case3 count stack => simp [Extent.unclosed] at closed
  | case4 count level outer c rest extra inside hmove ih =>
      have hrest := ih closed
      simp only [List.length_cons] at hrest ⊢
      omega
  | case5 count level outer c rest nested hmove ih =>
      have hrest := ih closed
      simp only [List.length_cons] at hrest ⊢
      omega
  | case6 => simp
  | case7 count level c rest hmove outside outer ih =>
      have hrest := ih closed
      simp only [List.length_cons] at hrest ⊢
      omega
  | case8 => simp [Extent.unclosed] at closed
  | case9 count level c rest first hmove outside outer ih =>
      have hrest := ih closed
      simp only [List.length_cons] at hrest ⊢
      omega
  | case10 => simp [Extent.unclosed] at closed

theorem opened_append (verbatim holes : Bool) (two : 2 ≤ r.length) :
    opened verbatim holes (r ++ v') = opened verbatim holes (r ++ v) := by
  match r, two with
  | a :: b :: rest, _ => simp [opened]

theorem opened_of_short {verbatim holes : Bool} (quote : v'.head? ≠ some '"') (one : r.length ≤ 1) :
    opened verbatim holes (r ++ v') = .text verbatim holes := by
  have hquote : ∀ c rest, v' = c :: rest → '"' ≠ c := by
    rintro c rest rfl rfl
    exact quote rfl
  match r, one with
  | [], _ =>
      match v' with
      | [] => rfl
      | c :: rest => simp [opened, List.isPrefixOf, hquote c rest rfl]
  | [a], _ =>
      match v' with
      | [] => simp [opened]
      | c :: rest => simp [opened, List.isPrefixOf, hquote c rest rfl]

/-- With two characters of a text ahead, what follows the text is not in sight. -/
theorem move_append (inside : Inside) (count : Nat) (c : Char) (two : 2 ≤ r.length) :
    move inside count c (r ++ v') = move inside count c (r ++ v) := by
  have hopened : ∀ verbatim holes, opened verbatim holes (r ++ v') = opened verbatim holes (r ++ v) :=
    fun verbatim holes => opened_append verbatim holes two
  match r, two with
  | a :: b :: rest, _ =>
      unfold move
      simp only [hopened]
      rfl

/-- With one character ahead, only a string that would open is not known. -/
theorem move_append_one (v v' : List Char) (inside : Inside) (count : Nat) (c a : Char) :
    move inside count c (a :: v') = move inside count c (a :: v) ∨
      (∃ verbatim holes, move inside count c (a :: v) = .pass 0 (opened verbatim holes (a :: v)) ∧
        move inside count c (a :: v') = .pass 0 (opened verbatim holes (a :: v'))) ∨
      ∃ nested, move inside count c (a :: v) = .enter nested := by
  cases inside with
  | text verbatim holes | quotes n | raw n run | char first => exact .inl rfl
  | marks verbatim holes =>
      unfold move
      dsimp only
      split
      · exact .inl rfl
      split
      · exact .inl rfl
      split
      · exact .inr (.inl ⟨verbatim, holes, rfl, rfl⟩)
      · exact .inl rfl
  | hole depth =>
      unfold move
      dsimp only
      split
      · exact .inl rfl
      split
      · exact .inl rfl
      split
      · exact .inr (.inr ⟨_, rfl⟩)
      · exact .inl rfl

/-- A character closes its level if it does in sight of anything else, unless a quote follows. -/
theorem move_eq_leave {inside : Inside} {count : Nat} (h : move inside count c v = .leave)
    (quote : v'.head? ≠ some '"') : move inside count c v' = .leave := by
  cases inside with
  | text verbatim holes =>
      unfold move at h ⊢
      dsimp only at h ⊢
      split at h
      · rename_i hc
        rw [if_pos hc]
        simp [quote]
      · rename_i hc
        split at h
        · split at h <;> cases h
        · split at h
          · cases h
          · split at h
            · cases h
            · split at h <;> cases h
  | quotes n | raw n run => exact h
  | char first =>
      unfold move at h ⊢
      dsimp only at h ⊢
      split at h
      · cases h
      split at h
      · rename_i hline hclose
        rw [if_neg hline, if_pos hclose]
      · split at h <;> cases h
  | marks verbatim holes =>
      unfold move at h
      dsimp only at h
      split at h
      · cases h
      · split at h
        · cases h
        · split at h <;> cases h
  | hole depth =>
      unfold move at h ⊢
      dsimp only at h ⊢
      split at h
      · cases h
      split at h
      · rename_i hopen hclose
        rw [if_neg hopen, if_pos hclose]
        exact h
      · split at h
        · cases h
        · split at h
          · split at h <;> cases h
          · split at h
            · cases h
            · split at h <;> cases h

/-- What is read after a character that moves the innermost level. -/
def after (level : Level) (outer : List Level) (count : Nat) (ahead : List Char) : Move → Extent
  | .pass extra inside => reach ({ level with inside } :: outer) (count + 1 + extra) (ahead.drop extra)
  | .enter nested => reach (.fresh nested :: level :: outer) (count + 1) ahead
  | .leave =>
      match outer with
      | [] => ⟨count + 1, true, level.cuts⟩
      | outside :: outer => reach (outside.absorb level.cuts :: outer) (count + 1) ahead
  | .cut first =>
      match outer with
      | [] => .unclosed [level] count
      | outside :: outer =>
          reach (outside.absorb (level.cuts ++ [⟨first, count⟩]) :: outer) (count + 1) ahead
  | .fail => .unclosed (level :: outer) count

theorem reach_cons (level : Level) (outer : List Level) (count : Nat) (c : Char) (ahead : List Char) :
    reach (level :: outer) count (c :: ahead) =
      after level outer count ahead (move level.inside count c ahead) := by
  rw [reach.eq_def]
  obtain ⟨inside, cuts⟩ := level
  cases inside <;> cases outer <;> rfl

/-- How many characters a literal needs from one that moves its innermost level on, with `outer`
levels around it. -/
def Move.cost (outer : Nat) : Move → Nat
  | .pass extra _ => 1 + extra + (outer + 1)
  | .enter _ => 1 + (outer + 2)
  | .leave => 1 + outer
  | .cut _ => 2
  | .fail => 0

/-- A literal that closes has the characters that it needs. -/
theorem cost_le_of_after {level : Level} {outer : List Level} {count bound : Nat} {ahead : List Char}
    {m : Move} (closed : (after level outer count ahead m).closed = true)
    (fit : (after level outer count ahead m).count ≤ bound) :
    m ≠ .fail ∧ count + m.cost outer.length ≤ bound := by
  cases m with
  | pass extra inside =>
      have hmore := Nat.le_trans (add_length_le_reach _ _ _ closed) fit
      exact ⟨Move.noConfusion, by simpa only [Move.cost, List.length_cons, Nat.add_assoc] using hmore⟩
  | enter nested =>
      have hmore := Nat.le_trans (add_length_le_reach _ _ _ closed) fit
      exact ⟨Move.noConfusion, by simpa only [Move.cost, List.length_cons, Nat.add_assoc] using hmore⟩
  | leave =>
      refine ⟨Move.noConfusion, ?_⟩
      cases outer with
      | nil => exact fit
      | cons outside outer =>
          have hmore := Nat.le_trans (add_length_le_reach _ _ _ closed) fit
          simpa only [Move.cost, List.length_cons, Nat.add_assoc] using hmore
  | cut first =>
      refine ⟨Move.noConfusion, ?_⟩
      cases outer with
      | nil => simp [after, Extent.unclosed] at closed
      | cons outside outer =>
          have hmore := Nat.le_trans (add_length_le_reach _ _ _ closed) fit
          simp only [Move.cost, List.length_cons] at hmore ⊢
          omega
  | fail => simp [after, Extent.unclosed] at closed

/-- If a string closes inside a text, the text says what its quote opens. -/
theorem opened_append_of_closed {verbatim holes : Bool} {cuts : List Cut} {outer : List Level}
    {count : Nat} (quote : v'.head? ≠ some '"')
    (closed : (reach (⟨opened verbatim holes (x ++ v), cuts⟩ :: outer) count (x ++ v)).closed = true)
    (fit : (reach (⟨opened verbatim holes (x ++ v), cuts⟩ :: outer) count (x ++ v)).count ≤
      count + x.length) :
    opened verbatim holes (x ++ v') = opened verbatim holes (x ++ v) := by
  match x with
  | [] =>
      have hmore := add_length_le_reach _ _ _ closed
      simp only [List.length_cons, List.length_nil] at hmore fit
      omega
  | [a] =>
      rw [opened_of_short quote (by simp)]
      by_cases hraw : ['"', '"'].isPrefixOf ([a] ++ v)
      · -- a raw string would need another quote
        rw [opened, if_pos hraw, List.singleton_append] at closed fit
        obtain rfl : a = '"' := by
          have hfirst := List.isPrefixOf_iff_prefix.1 hraw
          exact (List.cons_prefix_cons.1 hfirst).1.symm
        rw [reach_cons] at closed fit
        have hquotes := (cost_le_of_after closed fit).2
        simp only [move, if_true, Move.cost, List.length_cons, List.length_nil] at hquotes
        omega
      · rw [opened, if_neg hraw]
  | a :: b :: rest => exact opened_append verbatim holes (by simp)

/-- If a literal closes inside a text, what its first character does is known from the text. -/
private theorem move_append_of_closed {level : Level} {outer : List Level} {count : Nat}
    (quote : v'.head? ≠ some '"')
    (closed : (reach (level :: outer) count (c :: (r ++ v))).closed = true)
    (fit : (reach (level :: outer) count (c :: (r ++ v))).count ≤ count + (r.length + 1)) :
    move level.inside count c (r ++ v') = move level.inside count c (r ++ v) := by
  rw [reach_cons] at closed fit
  obtain ⟨hfail, hcost⟩ := cost_le_of_after closed fit
  match r with
  | [] =>
      simp only [List.nil_append, List.length_nil] at hcost hfail ⊢
      cases hmove : move level.inside count c v with
      | leave => exact move_eq_leave hmove quote
      | pass extra inside | enter nested | cut first =>
          rw [hmove] at hcost
          simp only [Move.cost] at hcost
          omega
      | fail => exact absurd hmove hfail
  | [a] =>
      simp only [List.singleton_append, List.length_cons, List.length_nil] at closed fit hcost ⊢
      rcases move_append_one v v' level.inside count c a with
        hsame | ⟨verbatim, holes, hmove, hmove'⟩ | ⟨nested, hmove⟩
      · exact hsame
      · rw [hmove, hmove']
        rw [hmove] at closed fit
        simp only [after, List.drop_zero] at closed fit
        have hopened := opened_append_of_closed (x := [a]) quote closed
          (by simp only [List.length_cons, List.length_nil]; exact fit)
        exact congrArg (Move.pass 0) hopened
      · rw [hmove] at hcost
        simp only [Move.cost] at hcost
        omega
  | a :: b :: rest => exact move_append _ _ _ (by simp)

/-- A literal that closes inside a text reaches as far whatever follows, unless a quote does. -/
theorem reach_append (quote : v'.head? ≠ some '"') : ∀ {stack : List Level} {count : Nat} {x : List Char},
    (reach stack count (x ++ v)).closed = true → (reach stack count (x ++ v)).count ≤ count + x.length →
      reach stack count (x ++ v') = reach stack count (x ++ v)
  | [], _, _, _, _ => by rw [reach, reach]
  | level :: outer, count, [], closed, fit => by
      have hmore := add_length_le_reach _ _ _ closed
      simp only [List.length_cons, List.length_nil] at hmore fit
      omega
  | level :: outer, count, c :: r, closed, fit => by
      rw [List.cons_append, List.length_cons] at fit
      rw [List.cons_append] at closed
      have hmove := move_append_of_closed quote closed fit
      rw [reach_cons] at closed fit
      rw [List.cons_append, List.cons_append, reach_cons, reach_cons, hmove]
      have hcost := (cost_le_of_after closed fit).2
      cases hm : move level.inside count c (r ++ v) with
      | pass extra inside =>
          rw [hm] at closed fit hcost
          simp only [Move.cost] at hcost
          simp only [after] at closed fit ⊢
          rw [List.drop_append_of_le_length (by omega)] at closed fit ⊢
          rw [List.drop_append_of_le_length (by omega)]
          exact reach_append quote closed (by rw [List.length_drop]; omega)
      | enter nested =>
          rw [hm] at closed fit
          exact reach_append quote closed (by simp only [after] at fit; omega)
      | leave =>
          rw [hm] at closed fit
          cases outer with
          | nil => rfl
          | cons outside outer => exact reach_append quote closed (by simp only [after] at fit; omega)
      | cut first =>
          rw [hm] at closed fit
          cases outer with
          | nil => rfl
          | cons outside outer => exact reach_append quote closed (by simp only [after] at fit; omega)
      | fail => rfl
termination_by _ _ x => x.length

theorem suffixLength_of_ne {u d : Char} {rest : List Char} (h : d ≠ '8') :
    suffixLength (u :: d :: rest) = 0 := by
  unfold suffixLength
  split
  · rename_i heq
    simp only [List.cons.injEq] at heq
    exact absurd heq.2.1 h
  · rfl

theorem suffixLength_eight (u : Char) (rest : List Char) : suffixLength (u :: '8' :: rest) =
    if ((u = 'u' || u = 'U') && !(rest.head?.any Text.isIdentContinue)) = true then 2 else 0 := rfl

/-- Whether a suffix follows a string that ends inside a text. -/
theorem suffixLength_append (fit : suffixLength (x ++ v) ≤ x.length) (stop : Stops v')
    (seam : Seam x v) : suffixLength (x ++ v') = suffixLength (x ++ v) := by
  match x with
  | [] =>
      have hv : suffixLength v = 0 := Nat.le_zero.1 fit
      rw [List.nil_append, List.nil_append, hv]
      match v' with
      | [] => rfl
      | [c] => rfl
      | c :: d :: rest =>
          by_cases hd : d = '8'
          · subst hd
            rcases stop c rfl with rfl | rfl | rfl <;> rfl
          · exact suffixLength_of_ne hd
  | [u] =>
      rw [List.singleton_append, List.singleton_append] at *
      have hv' : suffixLength (u :: v') = 0 := by
        match v' with
        | [] => rfl
        | c :: rest =>
            exact suffixLength_of_ne fun hc => stop.head_ne (c := '8') (by decide) (by rw [hc]; rfl)
      rw [hv']
      match v with
      | [] => rfl
      | d :: rest =>
          by_cases hd : d = '8'
          · subst hd
            rw [suffixLength_eight] at fit ⊢
            split
            · rename_i hu
              rw [if_pos hu] at fit
              simp at fit
            · rfl
          · rw [suffixLength_of_ne hd]
  | [u, d] =>
      simp only [List.cons_append, List.nil_append]
      by_cases hd : d = '8'
      · subst hd
        have hv : v.head?.any Text.isIdentContinue = false :=
          seam.resolve_left (show ¬Text.isIdentContinue '8' = false by decide)
        rw [suffixLength_eight, suffixLength_eight, hv, stop.not_identContinue]
      · rw [suffixLength_of_ne hd, suffixLength_of_ne hd]
  | u :: d :: e :: rest =>
      simp only [List.cons_append]
      by_cases hd : d = '8'
      · subst hd
        rfl
      · rw [suffixLength_of_ne hd, suffixLength_of_ne hd]

/-- Marks that end inside a text. -/
theorem readMarks_append {marks : Marks} (fit : (readMarks marks (x ++ v)).count < marks.count + x.length) :
    readMarks marks (x ++ v') = readMarks marks (x ++ v) := by
  induction x generalizing marks with
  | nil =>
      have hle := le_count_readMarks marks v
      simp only [List.nil_append, List.length_nil] at fit
      omega
  | cons c rest ih =>
      have hat : ∀ w, readMarks marks ('@' :: w) = if marks.verbatim then marks
          else readMarks { marks with count := marks.count + 1, verbatim := true } w := fun w => by
        rw [readMarks]
      have hdollar : ∀ w, readMarks marks ('$' :: w) =
          readMarks { marks with count := marks.count + 1, holes := true } w := fun w => by
        rw [readMarks]
      have hother : ∀ w, c ≠ '@' → c ≠ '$' → readMarks marks (c :: w) = marks := fun w hat hdollar => by
        rw [readMarks]
        · rintro rest heq
          exact hat (List.cons.inj heq).1
        · rintro rest heq
          exact hdollar (List.cons.inj heq).1
      simp only [List.cons_append, List.length_cons] at fit ⊢
      by_cases hc : c = '@'
      · subst hc
        rw [hat] at fit ⊢
        rw [hat]
        split
        · rfl
        · rename_i hverbatim
          rw [if_neg hverbatim] at fit
          exact ih (by simp only; omega)
      · by_cases hc' : c = '$'
        · subst hc'
          rw [hdollar] at fit ⊢
          rw [hdollar]
          exact ih (by simp only; omega)
        · rw [hother _ hc hc', hother _ hc hc']

end Literal

end Graft
