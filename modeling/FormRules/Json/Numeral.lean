-- SUMMARY: JSON numbers: their spelling in a text and the number that a spelling means.
import FormRules.Json.Cursor
import FormRules.Json.Failure

/-!
# Numerals

A numeral has whole digits, perhaps a fraction and perhaps an exponent. Without the last two it is
an integer, as long as that fits; every other numeral is a double, got from a 64-bit significand and
a power of ten. Digits that the significand has no room for count as zeros before the point and as
nothing after it.
-/

namespace FormRules.Json

/-- The decimal exponent that follows a significand. -/
structure TenPower where
  negative : Bool
  digits : List Char
  /-- The offset of the first digit. -/
  offset : Nat
  deriving DecidableEq, Repr, Inhabited

/-- A number as it is spelled. -/
structure Numeral where
  negative : Bool
  whole : List Char
  fraction : List Char
  power : Option TenPower
  deriving DecidableEq, Repr, Inhabited

namespace Numeral

/-! ## Spelling -/

private def bad (offset : Nat) : Fault := ⟨.malformed .badNumber, offset⟩

private def cut (offset : Nat) : Fault := ⟨.malformed .endInValue, offset⟩

/-- A broken numeral: the fault for a reader and the one for who skips it. -/
abbrev Broken := Fault × Fault

/-- The whole digits. A zero stands alone. -/
def scanWhole (c : Cursor) : Except Broken (List Char × Cursor) :=
  match c.rest with
  | [] => .error (cut c.offset, bad c.offset)
  | '0' :: rest =>
    match rest with
    | [] => .ok (['0'], ⟨rest, c.offset + 1⟩)
    | d :: _ =>
      if d.isDigit then .error (bad (c.offset + 2), bad (c.offset + 2))
      else .ok (['0'], ⟨rest, c.offset + 1⟩)
  | d :: _ => if d.isDigit then .ok c.digits else .error (bad (c.offset + 1), bad (c.offset + 1))

/-- The digits after a point, if there is one. -/
def scanFraction (c : Cursor) : Except Broken (List Char × Cursor) :=
  match c.rest with
  | '.' :: rest =>
    let c : Cursor := ⟨rest, c.offset + 1⟩
    let (ds, next) := c.digits
    if ds.isEmpty then .error (if rest.isEmpty then cut c.peek else bad c.peek, bad c.peek)
    else .ok (ds, next)
  | _ => .ok ([], c)

private def scanSign (c : Cursor) : Bool × Cursor :=
  match c.rest with
  | '-' :: rest => (true, ⟨rest, c.offset + 1⟩)
  | '+' :: rest => (false, ⟨rest, c.offset + 1⟩)
  | _ => (false, c)

def scanPower (c : Cursor) : Except Broken (Option TenPower × Cursor) :=
  match c.rest with
  | [] => .ok (none, c)
  | e :: rest =>
    if e = 'e' ∨ e = 'E' then
      let (negative, c) := scanSign ⟨rest, c.offset + 1⟩
      let (ds, next) := c.digits
      if ds.isEmpty then .error (if c.rest.isEmpty then cut c.peek else bad c.peek, bad c.peek)
      else .ok (some ⟨negative, ds, c.offset⟩, next)
    else .ok (none, c)

/-- The numeral that begins at a digit or a minus sign. -/
def scan (c : Cursor) : Except Broken (Numeral × Cursor) := do
  let (negative, c) :=
    match c.rest with
    | '-' :: rest => (true, (⟨rest, c.offset + 1⟩ : Cursor))
    | _ => (false, c)
  let (whole, c) ← scanWhole c
  let (fraction, c) ← scanFraction c
  let (power, c) ← scanPower c
  return (⟨negative, whole, fraction, power⟩, c)

/-! ## Meaning -/

private def digitValue (d : Char) : Nat := d.toNat - '0'.toNat

/-- Append digits to a significand as long as it fits into 64 bits, and count them. -/
def appendDigits (significand : Nat) : List Char → Nat × Nat
  | [] => (significand, 0)
  | d :: ds =>
    let next := significand * 10 + digitValue d
    if next < UInt64.size then
      let (result, taken) := appendDigits next ds
      (result, taken + 1)
    else (significand, 0)

/-- The value of exponent digits; past 32 bits the offset after the digit that goes too far. -/
def powerValue (value : Nat) (offset : Nat) : List Char → Except Nat Nat
  | [] => .ok value
  | d :: ds =>
    let next := value * 10 + digitValue d
    if next < UInt32.size / 2 then powerValue next (offset + 1) ds else .error (offset + 1)

/-- The number that a numeral means, which ends at the offset `stop`. -/
def number (n : Numeral) (stop : Nat) : Except Fault Number :=
  let (significand, taken) := appendDigits 0 n.whole
  let dropped := n.whole.length - taken
  let (significand, decimals) := appendDigits significand n.fraction
  let double (power : Int) : Except Fault Number :=
    match Magnitude.ofDecimal? significand (dropped - decimals + power) with
    | some m => .ok (.double ⟨n.negative, m⟩)
    | none => .error ⟨.malformed .numberTooLarge, stop⟩
  match n.power with
  | none =>
    if n.fraction.isEmpty ∧ dropped = 0 then
      if ¬ n.negative then .ok (.natural significand)
      else if 0 < significand ∧ significand ≤ UInt64.size / 2 then .ok (.negative significand)
      else double 0
    else double 0
  | some power =>
    match powerValue 0 power.offset power.digits with
    | .ok value => double (if power.negative then -value else value)
    | .error offset =>
      if significand ≠ 0 ∧ ¬ power.negative then .error ⟨.malformed .numberTooLarge, offset⟩
      else .ok (.double ⟨n.negative, .zero⟩)

end Numeral

end FormRules.Json
