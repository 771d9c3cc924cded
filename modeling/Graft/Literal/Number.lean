/-
Module: Graft.Literal.Number
Purpose: How far a number reaches, and what it is worth.
Main exports: Number.Extent, Number.extent, Number.integer?, Number.real
-/
import Graft.Double.Basic

namespace Graft.Number

/-- The length of the run of characters at the start of a text that satisfy `p`. -/
def runLength (p : Char → Bool) (text : List Char) : Nat := (text.takeWhile p).length

/-- A decimal digit or the separator `_`. -/
def isDigitOrSeparator (c : Char) : Bool := c.isDigit || c = '_'

/-- A hexadecimal digit. -/
def isHexDigit (c : Char) : Bool :=
  c.isDigit || ('a' ≤ c && c ≤ 'f') || ('A' ≤ c && c ≤ 'F')

/-- A letter of the suffix of an integer. -/
def isIntSuffix (c : Char) : Bool := c = 'u' || c = 'U' || c = 'l' || c = 'L'

/-- The suffix of a real. -/
def isRealSuffix (c : Char) : Bool :=
  c = 'f' || c = 'F' || c = 'd' || c = 'D' || c = 'm' || c = 'M'

/-- The letter after the zero of a number that is not decimal. -/
def isBaseMark (c : Char) : Bool := c = 'x' || c = 'X' || c = 'b' || c = 'B'

/-- How many characters a number covers, and whether it is a real. -/
structure Extent where
  count : Nat
  isReal : Bool
deriving DecidableEq, Repr, Inhabited

/-- The length of a fraction at the start of a text: a point and at least one digit. -/
def fractionLength : List Char → Nat
  | '.' :: d :: rest => if d.isDigit then 1 + runLength isDigitOrSeparator (d :: rest) else 0
  | _ => 0

/-- The length of an exponent at the start of a text: its letter, a sign or none, and at least one
digit. -/
def exponentLength : List Char → Nat
  | e :: rest =>
      if e = 'e' || e = 'E' then
        let signLength := if rest.head?.any (fun s => s = '+' || s = '-') then 1 else 0
        let digits := rest.drop signLength
        if digits.head?.any Char.isDigit then
          1 + signLength + runLength isDigitOrSeparator digits
        else 0
      else 0
  | [] => 0

/-- The extent of a decimal number: digits, then a fraction, an exponent and a suffix, each of
which may be missing. -/
def decimalExtent (text : List Char) : Extent :=
  let whole := runLength isDigitOrSeparator text
  let fraction := fractionLength (text.drop whole)
  let exponent := exponentLength (text.drop (whole + fraction))
  let count := whole + fraction + exponent
  let rest := text.drop count
  if rest.head?.any isRealSuffix then ⟨count + 1, true⟩
  else if fraction + exponent = 0 then ⟨count + runLength isIntSuffix rest, false⟩
  else ⟨count, true⟩

/-- The extent of the number at the start of a text. After `0x` or `0b` hexadecimal digits are
taken in either case; which of them are valid is decided when the value is read. -/
def extent (text : List Char) : Extent :=
  match text with
  | '0' :: mark :: rest =>
      if isBaseMark mark then
        let digits := runLength (fun c => isHexDigit c || c = '_') rest
        ⟨2 + digits + runLength isIntSuffix (rest.drop digits), false⟩
      else decimalExtent text
  | _ => decimalExtent text

/-- A number starts with a digit, or with a point before a digit. -/
def starts : List Char → Bool
  | c :: rest => c.isDigit || (c = '.' && rest.head?.any Char.isDigit)
  | [] => false

example : extent "0xFFuL+1".toList = ⟨6, false⟩ := by decide
example : extent "1.5e-3f".toList = ⟨7, true⟩ := by decide
example : extent "1.ToString()".toList = ⟨1, false⟩ := by decide
example : extent "1e+x".toList = ⟨1, false⟩ := by decide

theorem runLength_pos {p : Char → Bool} {c : Char} {rest : List Char} (h : p c = true) :
    0 < runLength p (c :: rest) := by
  simp [runLength, h]

/-- A decimal number that starts covers at least one character. -/
theorem decimalExtent_pos {text : List Char} (h : starts text = true) :
    0 < (decimalExtent text).count := by
  have covered : 0 < runLength isDigitOrSeparator text +
      fractionLength (text.drop (runLength isDigitOrSeparator text)) := by
    match text with
    | c :: rest =>
      simp only [starts, Bool.or_eq_true, Bool.and_eq_true, decide_eq_true_eq] at h
      rcases h with h | ⟨rfl, h⟩
      · have hwhole : 0 < runLength isDigitOrSeparator (c :: rest) :=
          runLength_pos (by simp [isDigitOrSeparator, h])
        omega
      · match rest with
        | d :: rest =>
          have hd : d.isDigit = true := by simpa using h
          have hwhole : runLength isDigitOrSeparator ('.' :: d :: rest) = 0 := by
            simp [runLength, isDigitOrSeparator, Char.isDigit]
          simp only [hwhole, List.drop_zero, fractionLength, hd, if_true]
          omega
  unfold decimalExtent
  dsimp only
  split
  · simp
  · split <;> dsimp only <;> omega

/-- A number that starts covers at least one character. -/
theorem extent_pos {text : List Char} (h : starts text = true) : 0 < (extent text).count := by
  unfold extent
  split
  · split
    · dsimp only; omega
    · exact decimalExtent_pos h
  · exact decimalExtent_pos h

/-- The value of a digit in any base up to sixteen. -/
def digitValue? (c : Char) : Option Nat :=
  if c.isDigit then some (c.toNat - '0'.toNat)
  else if 'a' ≤ c && c ≤ 'f' then some (c.toNat - 'a'.toNat + 10)
  else if 'A' ≤ c && c ≤ 'F' then some (c.toNat - 'A'.toNat + 10)
  else none

/-- The number that digits spell in a base; nothing if there are none or one is not below the
base. -/
def ofDigits? (base : Nat) (digits : List Char) : Option Nat :=
  if digits = [] then none
  else digits.foldlM (fun value c => do
    let digit ← digitValue? c
    if digit < base then some (value * base + digit) else none) 0

/-- A list without the elements at its end that satisfy `p`. -/
def dropEndWhile (p : Char → Bool) (text : List Char) : List Char :=
  (text.reverse.dropWhile p).reverse

/-- The value of an integer literal.  A decimal one has to fit 64 bits with a sign; one in another
base has to fit 64 bits, of which the highest then is the sign. -/
def integer? (lexeme : List Char) : Option Int :=
  match (dropEndWhile isIntSuffix lexeme).filter (· ≠ '_') with
  | '0' :: mark :: digits =>
      if isBaseMark mark then do
        let base := if mark = 'x' || mark = 'X' then 16 else 2
        let value ← ofDigits? base digits
        if value < 1 <<< 64 then some (Int.bmod value (1 <<< 64)) else none
      else decimal ('0' :: mark :: digits)
  | digits => decimal digits
where
  /-- The value of decimal digits, if it fits. -/
  decimal (digits : List Char) : Option Int := do
    let value ← ofDigits? 10 digits
    if value < 1 <<< 63 then some value else none

/-- The number that decimal digits spell. -/
def digitsValue (digits : List Char) : Nat := (ofDigits? 10 digits).getD 0

/-- The value of a real literal: the nearest double. -/
def real (lexeme : List Char) : Double :=
  let text := (dropEndWhile isRealSuffix lexeme).filter (· ≠ '_')
  let whole := text.takeWhile Char.isDigit
  let afterWhole := text.drop whole.length
  let fraction := if afterWhole.head? = some '.' then (afterWhole.drop 1).takeWhile Char.isDigit else []
  let afterFraction := if afterWhole.head? = some '.' then afterWhole.drop (fraction.length + 1)
    else afterWhole
  let exponent : Int :=
    match afterFraction.drop 1 with
    | '-' :: digits => -(digitsValue digits : Int)
    | '+' :: digits => digitsValue digits
    | digits => digitsValue digits
  Double.ofDecimal (digitsValue (whole ++ fraction)) (exponent - fraction.length)

end Graft.Number
