/-!
# Binary floating point

The finite numbers of the 64-bit binary format, without their signs, and the rounding of a
fraction to the nearest of them. All arithmetic is on natural numbers and exact.
-/

namespace ViewBuilder

/-- The number `mantissa * 2 ^ exponent`. The mantissa has 53 bits, or fewer when the exponent is
the least one. -/
structure Binary64 where
  mantissa : Nat
  exponent : Int
deriving DecidableEq, Repr

/-- The non-negative fraction `num / den`. -/
structure Fraction where
  num : Nat
  den : Nat

namespace Fraction

/-- Multiplies by a power of `base`, with either sign of the exponent. -/
def scale (f : Fraction) (base : Nat) (exponent : Int) : Fraction :=
  if 0 ≤ exponent then ⟨f.num * Nat.pow base exponent.toNat, f.den⟩
  else ⟨f.num, f.den * Nat.pow base (-exponent).toNat⟩

def floor (f : Fraction) : Nat := f.num / f.den

/-- The nearest natural number; a half goes to the even neighbour. -/
def nearest (f : Fraction) : Nat :=
  let low := f.num / f.den
  let twice := 2 * (f.num % f.den)
  if f.den < twice ∨ (twice = f.den ∧ low % 2 = 1) then low + 1 else low

def mul (f g : Fraction) : Fraction := ⟨f.num * g.num, f.den * g.den⟩

def div (f g : Fraction) : Fraction := ⟨f.num * g.den, f.den * g.num⟩

end Fraction

namespace Binary64

def leastExponent : Int := -1074

def greatestExponent : Int := 971

/-- The least mantissa of 53 bits. -/
def leastNormal : Nat := Nat.pow 2 52

def zero : Binary64 := ⟨0, leastExponent⟩

def one : Binary64 := ⟨leastNormal, -52⟩

def toFraction (x : Binary64) : Fraction := (Fraction.mk x.mantissa 1).scale 2 x.exponent

/-- The exponent at which the mantissa of a positive fraction has 53 bits, or the least one. -/
def exponentOf (f : Fraction) : Int :=
  let low := max ((Nat.log2 f.num : Int) - Nat.log2 f.den - 53) leastExponent
  if (f.scale 2 (-low)).floor < 2 * leastNormal then low else low + 1

/-- The nearest number to a fraction, by the even mantissa between two; none when that lies
beyond the greatest number. -/
def round? (f : Fraction) : Option Binary64 :=
  if f.num = 0 then some zero
  else
    let exponent := exponentOf f
    let mantissa := (f.scale 2 (-exponent)).nearest
    let x : Binary64 :=
      if mantissa < 2 * leastNormal then ⟨mantissa, exponent⟩ else ⟨leastNormal, exponent + 1⟩
    if x.exponent ≤ greatestExponent then some x else none

def ofNat? (n : Nat) : Option Binary64 := round? ⟨n, 1⟩

def mul? (x y : Binary64) : Option Binary64 := round? (x.toFraction.mul y.toFraction)

def div? (x y : Binary64) : Option Binary64 := round? (x.toFraction.div y.toFraction)

example : ofNat? 1 = some one := by decide +kernel

/-- A tie goes to the even mantissa. -/
example : round? ⟨2 ^ 53 + 1, 2 ^ 53⟩ = some one := by decide +kernel

example : round? ⟨2 ^ 1024, 1⟩ = none := by decide +kernel

end Binary64

end ViewBuilder
