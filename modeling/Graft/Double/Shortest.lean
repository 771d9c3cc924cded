/-
Module: Graft.Double.Shortest
Purpose: The shortest decimal text that reads back as a double.
Main exports: Double.display

A finite double is the nearest one to every number of an interval around it.  The digits are those
of the coarsest decimal grid with a point in that interval: grids of one, two, ... up to seventeen
digits are tried in turn, and on each only the two neighbours of the double can lie in the interval.
-/
import Graft.Double.Basic

namespace Graft.Double

/-- A double above zero and the interval of the numbers nearest to it, all in units of
`1 / unit`. -/
structure Neighbourhood where
  value : Nat
  low : Nat
  high : Nat
  unit : Nat
  /-- The ends of the interval belong to it. -/
  closed : Bool
deriving DecidableEq, Repr, Inhabited

/-- The neighbourhood of a finite double above zero.  The gap below a power of two is half the gap
above it. -/
def neighbourhood (x : Double) : Neighbourhood :=
  let exponent := (x.abs.bits >>> 52).toNat
  let fraction := (x.bits &&& 0xFFFFFFFFFFFFF).toNat
  let mantissa := if exponent = 0 then fraction else fraction + 1 <<< 52
  let scale : Int := leastExponent + ((exponent - 1 : Nat) : Int)
  let narrow := fraction = 0 ∧ 1 < exponent
  let numerator := if 0 ≤ scale - 2 then 1 <<< (scale - 2).toNat else 1
  let unit := if 0 ≤ scale - 2 then 1 else 1 <<< (2 - scale).toNat
  ⟨4 * mantissa * numerator, (4 * mantissa - if narrow then 1 else 2) * numerator,
    (4 * mantissa + 2) * numerator, unit, mantissa % 2 = 0⟩

/-- Decimal digits and the place of the point: the number `0.digits * 10 ^ point`. -/
structure Decimal where
  digits : Nat
  count : Nat
  point : Int
deriving DecidableEq, Repr, Inhabited

/-- The least `k` with `value < 10 ^ k`, for a finite double. -/
def decimalPoint (n : Neighbourhood) : Int :=
  ((Nat.toDigits 10 (n.value * Nat.pow 10 340 / n.unit)).length : Int) - 340

/-- The point nearest to the value on the grid of `count` digits, if it lies in the interval. The
greater of two that are equally near is taken. -/
def onGrid? (n : Neighbourhood) (point : Int) (count : Nat) : Option Decimal :=
  let step := point - count
  let up := if 0 ≤ step then 1 else Nat.pow 10 (-step).toNat
  let down := if 0 ≤ step then Nat.pow 10 step.toNat else 1
  let grid := n.unit * down
  let below := n.value * up / grid
  let holds (candidate : Nat) : Bool :=
    if n.closed then n.low * up ≤ candidate * grid && candidate * grid ≤ n.high * up
    else n.low * up < candidate * grid && candidate * grid < n.high * up
  let nearerAbove : Bool := grid ≤ 2 * (n.value * up % grid)
  let above := below + 1
  let choice :=
    if holds above && (nearerAbove || !holds below) then some above
    else if holds below then some below
    else none
  choice.map fun digits =>
    if digits = Nat.pow 10 count then ⟨1, 1, point + 1⟩ else ⟨digits, count, point⟩

/-- The fewest digits that read back as the double, and of those the nearest to it. -/
def shortest (x : Double) : Decimal :=
  let n := x.neighbourhood
  let point := decimalPoint n
  ((List.range 17).findSome? fun i => onGrid? n point (i + 1)).getD ⟨0, 1, 1⟩

/-- A decimal without an exponent: zeros fill the places up to the point. -/
def Decimal.positional (d : Decimal) : String :=
  let digits := Nat.toDigits 10 d.digits
  let zeros (n : Int) : List Char := List.replicate n.toNat '0'
  let text :=
    if d.point ≤ 0 then '0' :: '.' :: zeros (-d.point) ++ digits
    else if d.count ≤ d.point then digits ++ zeros (d.point - d.count)
    else digits.take d.point.toNat ++ '.' :: digits.drop d.point.toNat
  String.ofList text

/-- The text of a double: never an exponent, and no point in a whole number. -/
def display (x : Double) : String :=
  if x.isNaN then "NaN"
  else
    let size :=
      if x.isInfinite then "inf" else if x.isZero then "0" else x.shortest.positional
    if x.isNegative then "-" ++ size else size

end Graft.Double
