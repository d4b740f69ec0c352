-- SUMMARY: Finite binary64 numbers as exact integers, with correctly rounded scaling by powers of ten.

/-!
# Doubles

A number of a JSON text that is no machine integer is held as a finite binary64 number, written
`± mantissa · 2 ^ exponent` with natural mantissa. All arithmetic on it is exact arithmetic on
naturals followed by one rounding to the nearest double, a half to the even neighbour.
-/

namespace FormRules

/-- The number `mantissa · 2 ^ exponent`. -/
structure Magnitude where
  mantissa : Nat
  exponent : Int
  deriving DecidableEq, Repr, Inhabited

/-- A magnitude and a sign; zero has both signs. -/
structure Double where
  negative : Bool
  magnitude : Magnitude
  deriving DecidableEq, Repr, Inhabited

/-! ## Rounding -/

/-- A quotient of naturals, rounded to the nearest natural, a half to the even one. -/
def roundedQuotient (num den : Nat) : Nat :=
  let q := num / den
  let r := num % den
  if 2 * r < den then q else if den < 2 * r then q + 1 else q + q % 2

namespace Magnitude

/-- The exponent of the subnormal numbers, below which no double goes. -/
def leastExponent : Int := -1074

/-- The exponent of the largest doubles. -/
def greatestExponent : Int := 971

/-- Mantissas of normal numbers begin here, and end below twice that. -/
def leastNormal : Nat := 1 <<< 52

def zero : Magnitude := ⟨0, leastExponent⟩

def isZero (m : Magnitude) : Bool := m.mantissa == 0

/-- The double nearest to `num / den · 2 ^ e`, for positive `den`; `none` when it is too large. -/
def nearest (num den : Nat) (e : Int) : Option Magnitude :=
  if num = 0 then some zero
  else
    let scaled (q : Int) : Nat × Nat := (num <<< (e - q).toNat, den <<< (q - e).toNat)
    let fine := max ((num.log2 : Int) - den.log2 + e - 53) leastExponent
    let q := if (scaled fine).1 / (scaled fine).2 < 2 * leastNormal then fine else fine + 1
    let m := roundedQuotient (scaled q).1 (scaled q).2
    let result : Magnitude :=
      if m = 2 * leastNormal then ⟨leastNormal, q + 1⟩ else ⟨m, q⟩
    if greatestExponent < result.exponent then none else some result

def ofNat? (n : Nat) : Option Magnitude := nearest n 1 0

def powerOfTen? (k : Nat) : Option Magnitude := ofNat? (Nat.pow 10 k)

def times? (a b : Magnitude) : Option Magnitude :=
  nearest (a.mantissa * b.mantissa) 1 (a.exponent + b.exponent)

/-- The rounded quotient by a nonzero magnitude. -/
def over? (a b : Magnitude) : Option Magnitude :=
  nearest a.mantissa b.mantissa (a.exponent - b.exponent)

/-- The largest power of ten by which one step scales. -/
def stepLimit : Nat := 308

/-- Multiply by a power of ten. A power past the limit fits only zero. -/
def scaleUp? (m : Magnitude) (k : Nat) : Option Magnitude :=
  if k ≤ stepLimit then (powerOfTen? k).bind m.times?
  else if m.isZero then some m
  else none

/-- Divide by a power of ten, by the limit first where the power is past it. What is left of a
64-bit integer after two steps of the limit is zero. -/
def scaleDown? (m : Magnitude) (k : Nat) : Option Magnitude :=
  if k ≤ stepLimit then (powerOfTen? k).bind m.over?
  else if k ≤ 2 * stepLimit then
    ((powerOfTen? stepLimit).bind m.over?).bind fun m' => (powerOfTen? (k - stepLimit)).bind m'.over?
  else some zero

/-- The double that `significand · 10 ^ exponent` reads as; `none` when it is too large. -/
def ofDecimal? (significand : Nat) (exponent : Int) : Option Magnitude :=
  (ofNat? significand).bind fun m =>
    if 0 ≤ exponent then m.scaleUp? exponent.toNat else m.scaleDown? (-exponent).toNat

end Magnitude

end FormRules
