/-
Module: Graft.Double.Basic
Purpose: Double-precision floating-point numbers, identified by their bits.
Main exports: Double, Double.neg, Double.add, Double.nearest, Double.ofInt

The double nearest to a fraction is found by exact integer arithmetic: the fraction is divided by
the power of two that leaves 53 bits, or by the least power there is, and the quotient is rounded.
-/

namespace Graft

/-- A double-precision number as its 64 bits: a sign, eleven bits of exponent, 52 of fraction. -/
structure Double where
  bits : UInt64
deriving DecidableEq, Repr, Inhabited

namespace Double

def infinity : Double := ⟨0x7FF0000000000000⟩

def signBit : UInt64 := 0x8000000000000000

def isNegative (x : Double) : Bool := x.bits &&& signBit != 0

/-- The number without its sign. -/
def abs (x : Double) : Double := ⟨x.bits &&& 0x7FFFFFFFFFFFFFFF⟩

def isNaN (x : Double) : Bool := infinity.bits < x.abs.bits

def isInfinite (x : Double) : Bool := x.abs = infinity

def isZero (x : Double) : Bool := x.abs.bits = 0

/-- The number with the other sign. -/
def neg (x : Double) : Double := ⟨x.bits ^^^ signBit⟩

/-- The nearest double to a sum. -/
def add (x y : Double) : Double := ⟨(Float.ofBits x.bits + Float.ofBits y.bits).toBits⟩

/-- The integer nearest to a quotient; of two that are equally near, the even one. -/
def roundDiv (num den : Nat) : Nat :=
  let quotient := num / den
  let twice := 2 * (num % den)
  if twice < den then quotient
  else if den < twice then quotient + 1
  else quotient + quotient % 2

/-- The greatest `e` with `2 ^ e ≤ num / den`, for a fraction above zero. -/
def binaryExponent (num den : Nat) : Int :=
  let guess : Int := (num.log2 : Int) - den.log2
  let reached :=
    if 0 ≤ guess then den <<< guess.toNat ≤ num else den ≤ num <<< (-guess).toNat
  if reached then guess else guess - 1

/-- The least power of two that a double is a multiple of has this exponent. -/
def leastExponent : Int := -1074

/-- The double nearest to the fraction `num / den`, infinity if it is too great; of two that are
equally near, the one whose last bit is zero. -/
def nearest (num den : Nat) : Double :=
  if num = 0 ∨ den = 0 then ⟨0⟩
  else
    let scale := max (binaryExponent num den - 52) leastExponent
    let mantissa :=
      if 0 ≤ scale then roundDiv num (den <<< scale.toNat)
      else roundDiv (num <<< (-scale).toNat) den
    if mantissa < 1 <<< 52 then ⟨mantissa.toUInt64⟩
    else
      let bits := (scale - leastExponent).toNat <<< 52 + mantissa
      if infinity.bits.toNat ≤ bits then infinity else ⟨bits.toUInt64⟩

/-- The double nearest to an integer. -/
def ofInt (i : Int) : Double :=
  let size := nearest i.natAbs 1
  if i < 0 then size.neg else size

/-- The double nearest to `digits * 10 ^ exponent`.  Exponents far beyond the range of doubles are
settled without writing the power out. -/
def ofDecimal (digits : Nat) (exponent : Int) : Double :=
  if digits = 0 then ⟨0⟩
  else
    let magnitude := (Nat.toDigits 10 digits).length + exponent
    if 400 < magnitude then infinity
    else if magnitude < -400 then ⟨0⟩
    else if 0 ≤ exponent then nearest (digits * Nat.pow 10 exponent.toNat) 1
    else nearest digits (Nat.pow 10 (-exponent).toNat)

end Double

end Graft
