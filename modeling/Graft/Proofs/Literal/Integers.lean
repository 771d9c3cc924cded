/-
Module: Graft.Proofs.Literal.Integers
Purpose: How integer literals are written, how far they reach and what they are worth.
Main exports: IntegerLiteral, IntegerLiteral.value, IntegerLiteral.taken?, IntegerLiteral.extent_text,
  IntegerLiteral.integer?_text, Number.integer_cases

The digits of a literal spell a number in the base that the mark in front of them announces.  A decimal
number has to stay below the 63rd power of two.  A number in another base is read into 64 bits, and from the
63rd power of two on the highest of them is taken for the sign.
-/
import Mathlib.Data.Nat.Digits.Defs
import Graft.Proofs.Token.Reads

namespace Graft

namespace Number

/-! ### Digits -/

/-- The base of the digits behind a zero and a letter, or of digits without them. -/
def baseOf : Option Char → Nat
  | none => 10
  | some letter => if letter = 'x' || letter = 'X' then 16 else 2

/-- What stands before the digits of an integer literal. -/
def markOf : Option Char → List Char
  | none => []
  | some letter => ['0', letter]

@[simp] theorem markOf_none_append (text : List Char) : markOf none ++ text = text := rfl

@[simp] theorem markOf_some_append (letter : Char) (text : List Char) :
    markOf (some letter) ++ text = '0' :: letter :: text := rfl

/-- A digit of a base. -/
def IsDigitOf (base : Nat) (c : Char) : Prop := ∃ digit ∈ digitValue? c, digit < base

/-- The number that digits spell in a base, whatever stands between them. -/
def spelled (base : Nat) (digits : List Char) :
    Nat := Nat.ofDigits base (digits.filterMap digitValue?).reverse

variable {base : Nat} {c : Char} {digits text : List Char}

theorem spelled_cons {digit : Nat} (h : digitValue? c = some digit) :
    spelled base (c :: digits) = digit * base ^ (digits.filterMap digitValue?).length +
      spelled base digits := by
  unfold spelled
  rw [List.filterMap_cons_some h, List.reverse_cons, Nat.ofDigits_append, Nat.ofDigits_singleton,
    List.length_reverse, Nat.add_comm, Nat.mul_comm]

/-- Separators are worth nothing. -/
theorem spelled_filter (digits : List Char) :
    spelled base (digits.filter (· ≠ '_')) = spelled base digits := by
  have hskip : (digits.filter (· ≠ '_')).filterMap digitValue? = digits.filterMap digitValue? := by
    rw [List.filterMap_filter]
    congr 1
    funext c
    by_cases hc : c = '_'
    · rw [hc]
      rfl
    · rw [if_pos (by simpa using hc)]
  rw [spelled, hskip, spelled]

/-- What digits are worth with one more behind them, if it is a digit of the base. -/
def withDigit (base value : Nat) (c : Char) : Option Nat := do
  let digit ← digitValue? c
  if digit < base then some (value * base + digit) else none

theorem ofDigits?_eq_foldlM (hne : digits ≠ []) : ofDigits? base digits = digits.foldlM (withDigit base) 0 :=
  if_neg hne

theorem withDigit_eq {digit : Nat} (h : digitValue? c = some digit) (hless : digit < base) (value : Nat) :
    withDigit base value c = some (value * base + digit) := by
  unfold withDigit
  rw [h]
  exact if_pos hless

theorem withDigit_eq_none (h : ¬IsDigitOf base c) (value : Nat) : withDigit base value c = none := by
  unfold withDigit
  cases hdigit : digitValue? c with
  | none => rfl
  | some digit => exact if_neg fun hless => h ⟨digit, hdigit, hless⟩

theorem foldlM_withDigit (valid : ∀ c ∈ digits, IsDigitOf base c) (value : Nat) :
    digits.foldlM (withDigit base) value =
      some (value * base ^ (digits.filterMap digitValue?).length + spelled base digits) := by
  induction digits generalizing value with
  | nil => simp [spelled]
  | cons c rest ih =>
      obtain ⟨digit, hdigit, hless⟩ := valid c List.mem_cons_self
      have hrest := ih (fun d hd => valid d (List.mem_cons_of_mem _ hd)) (value * base + digit)
      rw [List.foldlM_cons, withDigit_eq hdigit hless, Option.bind_eq_bind, Option.bind_some, hrest,
        spelled_cons hdigit, List.filterMap_cons_some hdigit, List.length_cons, Nat.pow_succ', Nat.add_mul,
        Nat.mul_assoc, Nat.add_assoc]

theorem ofDigits?_eq (hne : digits ≠ []) (valid : ∀ c ∈ digits, IsDigitOf base c) :
    ofDigits? base digits = some (spelled base digits) := by
  rw [ofDigits?_eq_foldlM hne, foldlM_withDigit valid, Nat.zero_mul, Nat.zero_add]

/-- One character that is no digit of the base leaves no number. -/
theorem ofDigits?_eq_none (hmem : c ∈ digits) (h : ¬IsDigitOf base c) : ofDigits? base digits = none := by
  have hfold : ∀ (before behind : List Char) (value : Nat),
      (before ++ c :: behind).foldlM (withDigit base) value = none := by
    intro before behind
    induction before with
    | nil =>
        intro value
        rw [List.nil_append, List.foldlM_cons, withDigit_eq_none h]
        rfl
    | cons d rest ih =>
        intro value
        rw [List.cons_append, List.foldlM_cons]
        exact Option.bind_eq_none_iff.2 fun value _ => ih value
  rw [ofDigits?_eq_foldlM (List.ne_nil_of_mem hmem)]
  obtain ⟨before, behind, rfl⟩ := List.append_of_mem hmem
  exact hfold before behind 0

/-! ### Classes of characters -/

/-- The letters of a suffix stand nowhere else in an integer. -/
theorem of_isIntSuffix (h : isIntSuffix c = true) :
    isHexDigit c = false ∧ isBaseMark c = false ∧ c ≠ '0' ∧ c ≠ '_' := by
  simp only [isIntSuffix, Bool.or_eq_true, decide_eq_true_eq] at h
  rcases h with ((rfl | rfl) | rfl) | rfl <;> decide

/-- The letters behind a zero are no digits of a decimal number. -/
theorem of_isBaseMark (h : isBaseMark c = true) : c.isDigit = false ∧ c ≠ '_' := by
  simp only [isBaseMark, Bool.or_eq_true, decide_eq_true_eq] at h
  rcases h with ((rfl | rfl) | rfl) | rfl <;> decide

theorem isHexDigit_of_digitValue? {digit : Nat} (h : digitValue? c = some digit) : isHexDigit c = true := by
  unfold digitValue? at h
  unfold isHexDigit
  split at h
  · simp_all
  split at h
  · simp_all
  split at h
  · simp_all
  · cases h

/-- The digits of a decimal number are the decimal digits. -/
theorem isDigitOf_ten : IsDigitOf 10 c ↔ c.isDigit = true := by
  unfold IsDigitOf digitValue?
  constructor
  · rintro ⟨digit, hdigit, hless⟩
    by_contra h
    rw [if_neg h] at hdigit
    split at hdigit
    · obtain rfl := Option.some.inj hdigit
      omega
    split at hdigit
    · obtain rfl := Option.some.inj hdigit
      omega
    · cases hdigit
  · intro h
    rw [if_pos h]
    refine ⟨_, rfl, ?_⟩
    have hnine : c.toNat ≤ 57 := by
      simp only [Char.isDigit, Bool.and_eq_true, decide_eq_true_eq] at h
      exact h.2
    have hzero : '0'.toNat = 48 := rfl
    omega

/-! ### Suffixes -/

/-- What a text is without the elements at its end that satisfy `p`, where none of the others does. -/
theorem dropEndWhile_append {p : Char → Bool} {body suffix : List Char} (hbody : ∀ c ∈ body, p c = false)
    (hsuffix : ∀ c ∈ suffix, p c = true) : dropEndWhile p (body ++ suffix) = body := by
  have hkept : body.reverse.dropWhile p = body.reverse := by
    cases hreverse : body.reverse with
    | nil => rfl
    | cons c rest =>
        have hc := hbody c (List.mem_reverse.1 (hreverse ▸ List.mem_cons_self))
        exact List.dropWhile_cons_of_neg (by rw [hc]; decide)
  rw [dropEndWhile, List.reverse_append, List.dropWhile_append_of_pos fun c hc =>
    hsuffix c (List.mem_reverse.1 hc), hkept, List.reverse_reverse]

/-- A run of characters goes on up to the first one of another class. -/
theorem runLength_of_append {p : Char → Bool} {body rest : List Char} (hbody : ∀ c ∈ body, p c = true)
    (hrest : rest.head?.any p = false) : runLength p (body ++ rest) = body.length := by
  have hnone : runLength p rest = 0 := by
    cases rest with
    | nil => rfl
    | cons c rest =>
        rw [runLength, List.takeWhile_cons_of_neg (by rw [Bool.not_eq_true]; exact hrest)]
        rfl
  rw [runLength, List.takeWhile_append_of_pos hbody, List.length_append]
  exact congrArg (body.length + ·) hnone

theorem runLength_eq_length {p : Char → Bool} (h : ∀ c ∈ text, p c = true) :
    runLength p text = text.length := by
  have hrun := runLength_of_append h (show ([] : List Char).head?.any p = false from rfl)
  rwa [List.append_nil] at hrun

theorem take_runLength (p : Char → Bool) (text : List Char) :
    text.take (runLength p text) = text.takeWhile p :=
  (List.prefix_iff_eq_take.1 (List.takeWhile_prefix p)).symm

end Number

/-! ### Integer literals -/

open Number

/-- An integer literal: the letter of its base behind a zero, unless it is decimal, its digits with
separators among them, and its suffix. -/
structure IntegerLiteral where
  letter? : Option Char
  digits : List Char
  suffix : List Char
  isMark : ∀ letter ∈ letter?, isBaseMark letter = true
  valid : ∀ c ∈ digits, c = '_' ∨ IsDigitOf (baseOf letter?) c
  someDigit : ∃ c ∈ digits, c ≠ '_'
  /-- A separator would start a name. -/
  start : letter? = none → digits.head? ≠ some '_'
  isSuffix : ∀ c ∈ suffix, isIntSuffix c = true

namespace IntegerLiteral

variable (l : IntegerLiteral)

/-- How a literal is written. -/
def text : List Char := markOf l.letter? ++ l.digits ++ l.suffix

/-- The number that a literal is written for. -/
def value : Nat := spelled (baseOf l.letter?) l.digits

/-- The number that a literal is taken for, if it is taken for one. -/
def taken? : Option Int :=
  if l.value < 2 ^ 63 then some l.value
  else if l.letter? ≠ none ∧ l.value < 2 ^ 64 then some (l.value - 2 ^ 64)
  else none

end IntegerLiteral

/-! ### Values -/

namespace Number

variable {letter : Char} {lexeme digits : List Char}

/-- Of 64 bits the highest is the sign. -/
theorem bmod_word {value : Nat} (h : value < 2 ^ 64) :
    Int.bmod value (1 <<< 64) = if value < 2 ^ 63 then (value : Int) else value - 2 ^ 64 := by
  have hword : (1 <<< 64 : Nat) = 2 ^ 64 := rfl
  rw [hword, Int.bmod_def, Int.emod_eq_of_lt (by omega) (by omega)]
  split <;> split <;> omega

theorem integer?_decimal (h : (dropEndWhile isIntSuffix lexeme).filter (· ≠ '_') = digits)
    (decimal : ∀ c ∈ digits, c.isDigit = true) : integer? lexeme = integer?.decimal digits := by
  unfold integer?
  rw [h]
  split
  · rename_i mark rest
    have hdigit := decimal mark (List.mem_cons_of_mem _ List.mem_cons_self)
    refine if_neg fun hmark => ?_
    rw [(of_isBaseMark hmark).1] at hdigit
    cases hdigit
  · rfl

theorem integer?_marked (h : (dropEndWhile isIntSuffix lexeme).filter (· ≠ '_') = '0' :: letter :: digits)
    (mark : isBaseMark letter = true) :
    integer? lexeme = (ofDigits? (baseOf (some letter)) digits).bind fun value =>
      if value < 1 <<< 64 then some (Int.bmod value (1 <<< 64)) else none := by
  unfold integer?
  rw [h]
  exact if_pos mark

/-- What is left of an integer without its suffix and its separators. -/
theorem filter_dropEndWhile {letter? : Option Char} {suffix : List Char}
    (hmark : ∀ letter ∈ letter?, isBaseMark letter = true)
    (hdigits : ∀ c ∈ digits, isHexDigit c = true ∨ c = '_') (hsuffix : ∀ c ∈ suffix, isIntSuffix c = true) :
    (dropEndWhile isIntSuffix (markOf letter? ++ digits ++ suffix)).filter (· ≠ '_') =
      markOf letter? ++ digits.filter (· ≠ '_') := by
  have hfirst : ∀ c ∈ markOf letter?, c = '0' ∨ isBaseMark c = true := by
    intro c hc
    cases letter? with
    | none => cases hc
    | some letter =>
        have hc : c = '0' ∨ c = letter := by simpa [markOf] using hc
        rcases hc with rfl | rfl
        · exact .inl rfl
        · exact .inr (hmark c rfl)
  have hbody : ∀ c ∈ markOf letter? ++ digits, isIntSuffix c = false := by
    intro c hc
    refine Bool.eq_false_iff.2 fun hsuffix => ?_
    obtain ⟨hhex, hnoMark, hzero, hseparator⟩ := of_isIntSuffix hsuffix
    rcases List.mem_append.1 hc with hc | hc
    · rcases hfirst c hc with h | h
      · exact hzero h
      · rw [hnoMark] at h
        cases h
    · rcases hdigits c hc with h | h
      · rw [hhex] at h
        cases h
      · exact hseparator h
  have hkept : (markOf letter?).filter (· ≠ '_') = markOf letter? := by
    refine List.filter_eq_self.2 fun c hc => decide_eq_true ?_
    rcases hfirst c hc with rfl | h
    · decide
    · exact (of_isBaseMark h).2
  rw [dropEndWhile_append hbody hsuffix, List.filter_append, hkept]

end Number

namespace IntegerLiteral

variable (l : IntegerLiteral)

/-- The digits of a literal without separators. -/
def plain : List Char := l.digits.filter (· ≠ '_')

theorem plain_ne_nil : l.plain ≠ [] := by
  obtain ⟨c, hc, hne⟩ := l.someDigit
  exact List.ne_nil_of_mem (List.mem_filter.2 ⟨hc, by simpa using hne⟩)

theorem ofDigits?_plain : ofDigits? (baseOf l.letter?) l.plain = some l.value := by
  have hvalid : ∀ c ∈ l.plain, IsDigitOf (baseOf l.letter?) c := by
    intro c hc
    obtain ⟨hmem, hne⟩ := List.mem_filter.1 hc
    exact (l.valid c hmem).resolve_left (by simpa using hne)
  rw [ofDigits?_eq l.plain_ne_nil hvalid, plain, spelled_filter, value]

theorem isHex_of_mem {c : Char} (h : c ∈ l.digits) : isHexDigit c = true ∨ c = '_' := by
  rcases l.valid c h with h | ⟨digit, hdigit, -⟩
  · exact .inr h
  · exact .inl (isHexDigit_of_digitValue? hdigit)

/-- The digits of a decimal literal. -/
theorem isDigit_of_mem {c : Char} (decimal : l.letter? = none) (h : c ∈ l.digits) :
    c.isDigit = true ∨ c = '_' := by
  rcases l.valid c h with h | hdigit
  · exact .inr h
  · rw [decimal] at hdigit
    exact .inl (isDigitOf_ten.1 hdigit)

theorem filter_dropEndWhile_text :
    (dropEndWhile isIntSuffix l.text).filter (· ≠ '_') = markOf l.letter? ++ l.plain :=
  filter_dropEndWhile l.isMark (fun _ => l.isHex_of_mem) l.isSuffix

/-- A literal is worth the number that it is taken for. -/
theorem integer?_text : integer? l.text = l.taken? := by
  have hleft := l.filter_dropEndWhile_text
  have hvalue := l.ofDigits?_plain
  unfold taken?
  cases hletter : l.letter? with
  | none =>
      rw [hletter] at hleft hvalue
      rw [markOf_none_append] at hleft
      have hten : ofDigits? 10 l.plain = some l.value := hvalue
      have hdecimal : ∀ c ∈ l.plain, c.isDigit = true := by
        intro c hc
        obtain ⟨hmem, hne⟩ := List.mem_filter.1 hc
        exact (l.isDigit_of_mem hletter hmem).resolve_right (by simpa using hne)
      rw [integer?_decimal hleft hdecimal, integer?.decimal, hten, if_neg (c := _ ∧ _) (by simp)]
      rfl
  | some letter =>
      rw [hletter] at hleft hvalue
      rw [markOf_some_append] at hleft
      rw [integer?_marked hleft (l.isMark letter hletter), hvalue, Option.bind_some]
      by_cases hword : l.value < 2 ^ 64
      · rw [if_pos (c := l.value < 1 <<< 64) hword, bmod_word hword]
        split
        · rfl
        · rw [if_pos ⟨by simp, hword⟩]
      · rw [if_neg (c := l.value < 1 <<< 64) hword, if_neg (by omega), if_neg fun h => hword h.2]

end IntegerLiteral

/-! ### Extents -/

namespace Number

variable {text rest : List Char} {letter : Char} {count : Nat}

theorem extent_marked (mark : isBaseMark letter = true) (rest : List Char) :
    extent ('0' :: letter :: rest) = ⟨2 + runLength (fun c => isHexDigit c || c = '_') rest +
      runLength isIntSuffix (rest.drop (runLength (fun c => isHexDigit c || c = '_') rest)), false⟩ :=
  if_pos mark

theorem extent_decimal (h : ∀ letter rest, text = '0' :: letter :: rest → isBaseMark letter = false) :
    extent text = decimalExtent text := by
  unfold extent
  split
  · rename_i letter rest
    rw [h letter rest rfl]
    rfl
  · rfl

/-- The extent of decimal digits up to the letters behind them. -/
theorem decimalExtent_eq {digits suffix : List Char} (hdigits : ∀ c ∈ digits, isDigitOrSeparator c = true)
    (hsuffix : ∀ c ∈ suffix, isIntSuffix c = true) :
    decimalExtent (digits ++ suffix) = ⟨(digits ++ suffix).length, false⟩ := by
  have hletter : ∀ p : Char → Bool, p 'u' = false ∧ p 'U' = false ∧ p 'l' = false ∧ p 'L' = false →
      suffix.head?.any p = false := by
    intro p hp
    cases suffix with
    | nil => rfl
    | cons c rest =>
        have hc := hsuffix c List.mem_cons_self
        simp only [isIntSuffix, Bool.or_eq_true, decide_eq_true_eq] at hc
        rcases hc with ((rfl | rfl) | rfl) | rfl
        · exact hp.1
        · exact hp.2.1
        · exact hp.2.2.1
        · exact hp.2.2.2
  have hwhole : runLength isDigitOrSeparator (digits ++ suffix) = digits.length :=
    runLength_of_append hdigits (hletter _ (by decide))
  have hfraction : fractionLength suffix = 0 := by
    unfold fractionLength
    split
    · exact absurd (hletter (· = '.') (by decide)) (by simp)
    · rfl
  have hexponent : exponentLength suffix = 0 := by
    have hhead := hletter (fun c => c = 'e' || c = 'E') (by decide)
    unfold exponentLength
    split
    · rename_i e rest
      exact if_neg fun he => by simp [he] at hhead
    · rfl
  have hreal : suffix.head?.any isRealSuffix = false := hletter _ (by decide)
  unfold decimalExtent
  dsimp only
  rw [hwhole, List.drop_left, hfraction, Nat.add_zero, List.drop_left, hexponent, Nat.add_zero,
    List.drop_left, hreal, runLength_eq_length hsuffix, List.length_append]
  rfl

end Number

namespace IntegerLiteral

variable (l : IntegerLiteral)

/-- A literal reaches over all of its text. -/
theorem extent_text : extent l.text = ⟨l.text.length, false⟩ := by
  unfold text
  cases hletter : l.letter? with
  | none =>
      have hdigits : ∀ c ∈ l.digits, isDigitOrSeparator c = true := by
        intro c hc
        simpa [isDigitOrSeparator] using l.isDigit_of_mem hletter hc
      have hmark : ∀ letter rest, l.digits ++ l.suffix = '0' :: letter :: rest →
          isBaseMark letter = false := by
        intro letter rest heq
        have hmem : letter ∈ l.digits ++ l.suffix := heq ▸ List.mem_cons_of_mem _ List.mem_cons_self
        rcases List.mem_append.1 hmem with h | h
        · refine Bool.eq_false_iff.2 fun hbase => ?_
          obtain ⟨hnoDigit, hne⟩ := of_isBaseMark hbase
          rcases l.isDigit_of_mem hletter h with h | h
          · rw [hnoDigit] at h
            cases h
          · exact hne h
        · exact (of_isIntSuffix (l.isSuffix letter h)).2.1
      rw [markOf_none_append, extent_decimal hmark, decimalExtent_eq hdigits l.isSuffix]
  | some letter =>
      have hdigits : ∀ c ∈ l.digits, (isHexDigit c || decide (c = '_')) = true := by
        intro c hc
        simpa using l.isHex_of_mem hc
      have hrest : l.suffix.head?.any (fun c => isHexDigit c || c = '_') = false := by
        cases hsuffix : l.suffix with
        | nil => rfl
        | cons c rest =>
            obtain ⟨hhex, -, -, hne⟩ := of_isIntSuffix (l.isSuffix c (hsuffix ▸ List.mem_cons_self))
            simp [hhex, hne]
      have hextent := extent_marked (l.isMark letter hletter) (l.digits ++ l.suffix)
      rw [runLength_of_append hdigits hrest, List.drop_left, runLength_eq_length l.isSuffix] at hextent
      change extent ('0' :: letter :: (l.digits ++ l.suffix)) = _
      rw [hextent]
      simp [markOf]
      omega

/-- A literal starts with a decimal digit. -/
theorem exists_digit : ∃ c rest, l.text = c :: rest ∧ c.isDigit = true := by
  cases hletter : l.letter? with
  | none =>
      obtain ⟨c, hc, -⟩ := l.someDigit
      cases hdigits : l.digits with
      | nil =>
          rw [hdigits] at hc
          cases hc
      | cons c rest =>
          have hne : c ≠ '_' := by simpa [hdigits] using l.start hletter
          have hdigit := (l.isDigit_of_mem hletter (hdigits ▸ List.mem_cons_self)).resolve_right hne
          exact ⟨c, rest ++ l.suffix, by simp [text, hletter, hdigits], hdigit⟩
  | some letter => exact ⟨'0', letter :: (l.digits ++ l.suffix), by simp [text, hletter], by decide⟩

theorem text_ne_nil : l.text ≠ [] := by
  obtain ⟨c, rest, htext, -⟩ := l.exists_digit
  rw [htext]
  exact List.cons_ne_nil c rest

end IntegerLiteral

namespace Number

variable {text rest : List Char} {letter : Char} {count : Nat}

/-- Digits that are not all of the base, or not any, spell no number. -/
theorem integer?_eq_none {digits suffix : List Char} (mark : isBaseMark letter = true)
    (hdigits : ∀ c ∈ digits, isHexDigit c = true ∨ c = '_') (hsuffix : ∀ c ∈ suffix, isIntSuffix c = true)
    (h : ¬((∀ c ∈ digits, c = '_' ∨ IsDigitOf (baseOf (some letter)) c) ∧ ∃ c ∈ digits, c ≠ '_')) :
    integer? (markOf (some letter) ++ digits ++ suffix) = none := by
  have hmark : ∀ c ∈ some letter, isBaseMark c = true := fun _ h => Option.some.inj h ▸ mark
  have hleft := filter_dropEndWhile hmark hdigits hsuffix
  have hnone : ofDigits? (baseOf (some letter)) (digits.filter (· ≠ '_')) = none := by
    by_cases hvalid : ∀ c ∈ digits, c = '_' ∨ IsDigitOf (baseOf (some letter)) c
    · have hempty : digits.filter (· ≠ '_') = [] := by
        refine List.filter_eq_nil_iff.2 fun c hc hne => h ⟨hvalid, c, hc, by simpa using hne⟩
      rw [hempty]
      rfl
    · push Not at hvalid
      obtain ⟨c, hc, hne, hdigit⟩ := hvalid
      exact ofDigits?_eq_none (List.mem_filter.2 ⟨hc, by simpa using hne⟩) hdigit
  rw [markOf_some_append _ (List.filter _ _)] at hleft
  rw [integer?_marked hleft mark, hnone]
  rfl

/-- A decimal number that is an integer has neither a fraction nor an exponent. -/
theorem of_decimalExtent (h : decimalExtent text = ⟨count, false⟩) :
    fractionLength (text.drop (runLength isDigitOrSeparator text)) = 0 ∧
      count = runLength isDigitOrSeparator text + runLength isIntSuffix
        (text.drop (runLength isDigitOrSeparator text)) := by
  unfold decimalExtent at h
  dsimp only at h
  generalize runLength isDigitOrSeparator text = whole at h ⊢
  generalize fractionLength (text.drop whole) = fraction at h ⊢
  generalize exponentLength (text.drop (whole + fraction)) = exponent at h
  split at h
  · cases h
  split at h
  · rename_i hzero
    obtain ⟨rfl, rfl⟩ := Nat.add_eq_zero_iff.1 hzero
    exact ⟨rfl, (Extent.mk.inj h).1.symm⟩
  · cases h

/-- A number starts with a digit, or else with a point and a fraction. -/
theorem exists_digit (hstarts : starts text = true)
    (hfraction : fractionLength (text.drop (runLength isDigitOrSeparator text)) = 0) :
    ∃ c rest, text = c :: rest ∧ c.isDigit = true := by
  cases text with
  | nil => cases hstarts
  | cons c rest =>
      refine ⟨c, rest, rfl, by_contra fun hc => ?_⟩
      simp only [starts, hc, Bool.false_or, Bool.and_eq_true, decide_eq_true_eq] at hstarts
      obtain ⟨rfl, hstarts⟩ := hstarts
      cases rest with
      | nil => cases hstarts
      | cons d rest =>
          have hdigit : d.isDigit = true := hstarts
          have hzero : runLength isDigitOrSeparator ('.' :: d :: rest) = 0 := rfl
          rw [hzero, List.drop_zero, fractionLength, if_pos hdigit] at hfraction
          omega

/-- An integer in a text is an integer literal, or it is worth nothing. -/
theorem integer_cases (hstarts : starts text = true) (h : extent text = ⟨count, false⟩) :
    (∃ l : IntegerLiteral, text.take count = l.text) ∨ integer? (text.take count) = none := by
  have hsuffix : ∀ (text : List Char), ∀ c ∈ text.takeWhile isIntSuffix, isIntSuffix c = true :=
    fun _ _ => List.mem_takeWhile_imp
  by_cases hmarked : ∃ letter rest, text = '0' :: letter :: rest ∧ isBaseMark letter = true
  · obtain ⟨letter, rest, rfl, hmark⟩ := hmarked
    rw [extent_marked hmark, Extent.mk.injEq] at h
    obtain ⟨rfl, -⟩ := h
    generalize hp : (fun c => isHexDigit c || decide (c = '_')) = p
    have hdigits : ∀ c ∈ rest.takeWhile p, isHexDigit c = true ∨ c = '_' := by
      intro c hc
      have hc := List.mem_takeWhile_imp hc
      simpa [← hp] using hc
    have htake : ('0' :: letter :: rest).take (2 + runLength p rest + runLength isIntSuffix
        (rest.drop (runLength p rest))) =
        markOf (some letter) ++ rest.takeWhile p ++ (rest.drop (runLength p rest)).takeWhile
        isIntSuffix := by
      rw [Nat.add_assoc, Nat.add_comm 2, List.take_succ_cons, List.take_succ_cons, List.take_add,
        take_runLength, take_runLength]
      rfl
    rw [htake]
    by_cases hvalid : (∀ c ∈ rest.takeWhile p, c = '_' ∨ IsDigitOf (baseOf (some letter)) c) ∧
        ∃ c ∈ rest.takeWhile p, c ≠ '_'
    · exact .inl ⟨⟨some letter, _, _, fun _ h => Option.some.inj h ▸ hmark, hvalid.1, hvalid.2,
        fun h => absurd h (Option.some_ne_none _), hsuffix _⟩, rfl⟩
    · exact .inr (integer?_eq_none hmark hdigits (hsuffix _) hvalid)
  · have hdecimal := extent_decimal fun letter rest heq => by_contra fun h =>
      hmarked ⟨letter, rest, heq, by simpa using h⟩
    rw [hdecimal] at h
    obtain ⟨hfraction, rfl⟩ := of_decimalExtent h
    have htake : text.take (runLength isDigitOrSeparator text +
        runLength isIntSuffix (text.drop (runLength isDigitOrSeparator text))) =
        markOf none ++ text.takeWhile isDigitOrSeparator ++
          (text.drop (runLength isDigitOrSeparator text)).takeWhile isIntSuffix := by
      rw [List.take_add, take_runLength, take_runLength]
      rfl
    obtain ⟨c, rest, rfl, hc⟩ := exists_digit hstarts hfraction
    have hne : c ≠ '_' := by
      rintro rfl
      cases hc
    have hcons : (c :: rest).takeWhile isDigitOrSeparator = c :: rest.takeWhile isDigitOrSeparator :=
      List.takeWhile_cons_of_pos (by simp [isDigitOrSeparator, hc])
    have hdigits : ∀ d ∈ (c :: rest).takeWhile isDigitOrSeparator, d = '_' ∨ IsDigitOf 10 d := by
      intro d hd
      have hd := List.mem_takeWhile_imp hd
      rw [isDigitOf_ten]
      simpa [isDigitOrSeparator, or_comm] using hd
    rw [htake]
    refine .inl ⟨⟨none, _, _, fun _ h => absurd h (Option.not_mem_none _), hdigits, ⟨c, ?_, hne⟩,
      fun _ => ?_, hsuffix _⟩, rfl⟩
    · rw [hcons]
      exact List.mem_cons_self
    · rw [hcons]
      simpa using hne

end Number

end Graft
