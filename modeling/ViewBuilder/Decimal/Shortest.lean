import ViewBuilder.Text
import ViewBuilder.Decimal.Binary64

/-!
# Shortest decimal text

The fewest decimal digits that round back to a given binary number, and among those the nearest.
With 1, 2, … 17 digits the two neighbours of the number on the decimal grid are tried.
-/

namespace ViewBuilder

/-- The number `digits * 10 ^ exponent`. -/
structure Decimal where
  digits : Nat
  exponent : Int
deriving DecidableEq, Repr

namespace Decimal

def toFraction (d : Decimal) : Fraction := (Fraction.mk d.digits 1).scale 10 d.exponent

def digitCount (d : Decimal) : Nat := (Text.ofNat d.digits).length

/-- The place of the decimal point: the number lies below `10 ^ magnitude`, and not below a tenth
of it unless it is zero. -/
def magnitude (d : Decimal) : Int := d.digitCount + d.exponent

/-- Drops zeros at the end of the digits. -/
def withoutZeros (d : Decimal) : Decimal :=
  let zeros := ((Text.ofNat d.digits).reverse.takeWhile (· = '0')).length
  if d.digits = 0 then ⟨0, 0⟩ else ⟨d.digits / Nat.pow 10 zeros, d.exponent + zeros⟩

/-- The nearest binary number; none when it is too great. A number far beyond either end of the
format is not expanded. -/
def round? (d : Decimal) : Option Binary64 :=
  let d := d.withoutZeros
  if d.digits = 0 ∨ d.magnitude < -330 then some .zero
  else if 310 < d.magnitude then none
  else Binary64.round? d.toFraction

end Decimal

namespace Binary64

/-! ## The reals that round to a number -/

/-- Half the way down to the next smaller number, which is nearer at a power of two. -/
def lowerEnd (x : Binary64) : Fraction :=
  if x.mantissa = leastNormal ∧ leastExponent < x.exponent then
    (Fraction.mk (4 * x.mantissa - 1) 1).scale 2 (x.exponent - 2)
  else (Fraction.mk (2 * x.mantissa - 1) 1).scale 2 (x.exponent - 1)

def upperEnd (x : Binary64) : Fraction :=
  (Fraction.mk (2 * x.mantissa + 1) 1).scale 2 (x.exponent - 1)

/-- Whether a decimal rounds to `x`; the ends do when the mantissa is even. -/
def isRoundedFrom (x : Binary64) (d : Decimal) : Bool :=
  let f := d.toFraction
  let low := x.lowerEnd
  let high := x.upperEnd
  if x.mantissa % 2 = 0 then
    low.num * f.den ≤ f.num * low.den && f.num * high.den ≤ high.num * f.den
  else
    low.num * f.den < f.num * low.den && f.num * high.den < high.num * f.den

/-! ## The choice -/

/-- The place of the decimal point of a positive number. -/
def magnitude (x : Binary64) : Int :=
  let f := x.toFraction
  if f.den ≤ f.num then (Text.ofNat f.floor).length
  else
    match (List.range 400).find? fun k => f.den ≤ f.num * Nat.pow 10 k with
    | some k => 1 - (k : Int)
    | none => 0

/-- Of the two neighbours of `x` on the grid with `count` digits, the nearest that rounds to
`x`. -/
def withDigits? (x : Binary64) (count : Nat) : Option Decimal :=
  let exponent := x.magnitude - count
  let scaled := x.toFraction.scale 10 (-exponent)
  let low : Decimal := ⟨scaled.floor, exponent⟩
  let high : Decimal := ⟨scaled.floor + 1, exponent⟩
  let near := if scaled.nearest = low.digits then low else high
  let far := if scaled.nearest = low.digits then high else low
  [near, far].find? x.isRoundedFrom

def shortest (x : Binary64) : Decimal :=
  if x.mantissa = 0 then ⟨0, 0⟩
  else
    match (List.range 17).findSome? fun count => x.withDigits? (count + 1) with
    | some d => d.withoutZeros
    | none => ⟨0, 0⟩

example : shortest one = ⟨1, 0⟩ := by decide +kernel

example : (round? ⟨1, 10⟩).map shortest = some ⟨1, -1⟩ := by decide +kernel

end Binary64

end ViewBuilder
