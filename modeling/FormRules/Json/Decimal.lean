-- SUMMARY: The shortest decimal text that reads back as a given double.
import FormRules.Json.Double

/-!
# Shortest decimals

A double is written with the fewest decimal digits that read back as the same double; of several
such decimals the nearest is taken, of two equally near ones the even. The reals that read back as
a double form an interval around it, and a decimal grid meets the interval only if one of the two
grid points next to the double lies in it, so that each grid needs two tests.
-/

namespace FormRules

namespace Magnitude

/-! ## The digits -/

/-- Compare `a · 10 ^ p` with `b · 2 ^ k` in exact arithmetic. -/
private def compareDecimal (a : Nat) (p : Int) (b : Nat) (k : Int) : Ordering :=
  compare ((a * Nat.pow 10 p.toNat) <<< (-k).toNat) ((b * Nat.pow 10 (-p).toNat) <<< k.toNat)

/-- Whether `a · 10 ^ p` reads back as the magnitude. The neighbour below a power of two is twice as
near as the one above; the ends of the interval belong to it when the mantissa is even. -/
def readsBack (m : Magnitude) (a : Nat) (p : Int) : Bool :=
  let half := m.exponent - 2
  let lower :=
    if m.mantissa = leastNormal ∧ leastExponent < m.exponent then 4 * m.mantissa - 1
    else 4 * m.mantissa - 2
  let even := m.mantissa % 2 == 0
  let above := match compareDecimal a p lower half with
    | .gt => true
    | .eq => even
    | .lt => false
  let below := match compareDecimal a p (4 * m.mantissa + 2) half with
    | .lt => true
    | .eq => even
    | .gt => false
  above && below

/-- The magnitude in units of `10 ^ p`, as a quotient. -/
private def inUnits (m : Magnitude) (p : Int) : Nat × Nat :=
  ((m.mantissa * Nat.pow 10 (-p).toNat) <<< m.exponent.toNat,
    Nat.pow 10 p.toNat <<< (-m.exponent).toNat)

/-- The grid of multiples of `10 ^ p` has at most two candidates, the neighbours of the magnitude. -/
private def candidate (m : Magnitude) (p : Int) : Option Nat :=
  let (num, den) := m.inUnits p
  let low := num / den
  match m.readsBack low p, m.readsBack (low + 1) p with
  | true, true => some (roundedQuotient num den)
  | true, false => some low
  | false, true => some (low + 1)
  | false, false => none

/-- The decimal exponent of the leading digit of a nonzero magnitude. -/
private def leadingExponent (m : Magnitude) : Int :=
  let (num, den) := m.inUnits (-400)
  (Nat.toDigits 10 (num / den)).length - 401

/-- Move the zeros at the end of `a` into the exponent, at most `fuel` of them. -/
private def stripZeros : Nat → Nat → Int → Nat × Int
  | 0, a, p => (a, p)
  | fuel + 1, a, p => if a % 10 = 0 then stripZeros fuel (a / 10) (p + 1) else (a, p)

/-- The shortest decimal `a · 10 ^ p` that reads back as a nonzero magnitude. Seventeen digits are
always enough. -/
def shortest (m : Magnitude) : Nat × Int :=
  let top := m.leadingExponent
  let found := (List.range 17).findSome? fun (i : Nat) =>
    (m.candidate (top - i)).map fun a => (a, top - i)
  match found with
  | some (a, p) => stripZeros 17 a p
  | none => (0, 0)

/-! ## The layout -/

private def zeros (n : Int) : List Char := List.replicate n.toNat '0'

/-- The text of an exponent, which always shows its sign. -/
private def exponentText (x : Int) : List Char :=
  'e' :: (if x < 0 then '-' else '+') :: Nat.toDigits 10 x.natAbs

/-- The text of `digits · 10 ^ p`. From `0.00001` up to below ten to the sixteenth the point stands
in its place, with a digit on both sides; beyond, one digit stands before the point and a power of
ten follows. -/
def layout (digits : List Char) (p : Int) : List Char :=
  let point := (digits.length : Int) + p
  if 0 ≤ p ∧ point ≤ 16 then digits ++ zeros p ++ ['.', '0']
  else if 0 < point ∧ point ≤ 16 then
    digits.take point.toNat ++ '.' :: digits.drop point.toNat
  else if -5 < point ∧ point ≤ 0 then '0' :: '.' :: zeros (-point) ++ digits
  else match digits with
    | [] => exponentText (point - 1)
    | [d] => d :: exponentText (point - 1)
    | d :: rest => d :: '.' :: rest ++ exponentText (point - 1)

def text (m : Magnitude) : String :=
  if m.isZero then "0.0"
  else
    let (a, p) := m.shortest
    String.ofList (layout (Nat.toDigits 10 a) p)

end Magnitude

def Double.text (d : Double) : String :=
  (if d.negative then "-" else "") ++ d.magnitude.text

end FormRules
