-- SUMMARY: JSON strings: where they end in a text and what they contain.
import FormRules.Json.Cursor
import FormRules.Json.Failure

/-!
# Quotations

A JSON string ends at the next quote that is not escaped. Escapes of four hexadecimal digits are
16-bit units, and a character above them is a pair of surrogates. A surrogate without its other
half is a flaw: it leaves the string without content, but not without an end, so that the string
can still be skipped. The first flaw of a string is the one that its reader hears of.
-/

namespace FormRules.Json

/-- A string of a text: closed, with its content and the place after it, or broken, with the fault
for a reader and the one for who skips it. -/
inductive Quotation where
  | closed (content : Except Fault String) (next : Cursor)
  | broken (read skip : Fault)
  deriving Inhabited

namespace Quotation

/-! ## Units -/

def hexValue (c : Char) : Option Nat :=
  if '0' ≤ c ∧ c ≤ '9' then some (c.toNat - '0'.toNat)
  else if 'a' ≤ c ∧ c ≤ 'f' then some (c.toNat - 'a'.toNat + 10)
  else if 'A' ≤ c ∧ c ≤ 'F' then some (c.toNat - 'A'.toNat + 10)
  else none

/-- The unit that four hexadecimal digits spell. -/
def unit? (a b c d : Char) : Option Nat := do
  let a ← hexValue a
  let b ← hexValue b
  let c ← hexValue c
  let d ← hexValue d
  return ((a * 16 + b) * 16 + c) * 16 + d

/-- Whether a unit is the first half of a pair. -/
def isLeading (unit : Nat) : Bool := 0xD800 ≤ unit && unit ≤ 0xDBFF

/-- Whether a unit is the second half of a pair. -/
def isTrailing (unit : Nat) : Bool := 0xDC00 ≤ unit && unit ≤ 0xDFFF

/-- The character that a pair of units spells. -/
def paired (leading trailing : Nat) : Char :=
  Char.ofNat (0x10000 + (leading - 0xD800) * 0x400 + (trailing - 0xDC00))

/-- The character of an escape of two characters. -/
def escape? : Char → Option Char
  | '"' => some '"'
  | '\\' => some '\\'
  | '/' => some '/'
  | 'b' => some '\x08'
  | 'f' => some '\x0c'
  | 'n' => some '\n'
  | 'r' => some '\r'
  | 't' => some '\t'
  | _ => none

/-! ## Content -/

/-- What is known of a string so far: its characters from the last to the first, its first flaw,
and a first half of a pair that waits for the second. -/
structure Content where
  reversed : List Char := []
  flaw : Option Fault := none
  waiting : Option Nat := none

namespace Content

private def fault (m : Malformation) (offset : Nat) : Fault := ⟨.malformed m, offset⟩

/-- Note a flaw, unless there was one before. -/
def flawed (s : Content) (m : Malformation) (offset : Nat) : Content :=
  { s with flaw := some (s.flaw.getD (fault m offset)), waiting := none }

/-- Something other than an escaped unit follows, which a waiting half does not allow. -/
def unpaired (s : Content) (offset : Nat) : Content :=
  if s.waiting.isSome then s.flawed .unpairedSurrogate offset else s

def push (s : Content) (c : Char) : Content :=
  { s with reversed := c :: s.reversed }

/-- Add an escaped unit that ends at an offset. -/
def pushUnit (s : Content) (unit : Nat) (offset : Nat) : Content :=
  match s.waiting with
  | some leading =>
    if isTrailing unit then { s with waiting := none }.push (paired leading unit)
    else s.flawed .loneSurrogate offset
  | none =>
    if isTrailing unit then s.flawed .loneSurrogate offset
    else if isLeading unit then { s with waiting := some unit }
    else s.push (Char.ofNat unit)

def finish (s : Content) : Except Fault String :=
  match s.flaw with
  | some f => .error f
  | none => .ok (String.ofList s.reversed.reverse)

/-- The string breaks off. A reader hears of an earlier flaw instead. -/
def breakOff (s : Content) (read skip : Fault) : Quotation := .broken (s.flaw.getD read) skip

end Content

/-! ## Scanning -/

/-- The string whose opening quote is behind, with `s` what is known of it. A unit takes four bytes
at once, whatever they are. -/
def scanFrom : List Char → Nat → Content → Quotation
  | [], o, s => s.breakOff (Content.fault .endInString o) (Content.fault .endInString o)
  | '"' :: rest, o, s => .closed (s.unpaired (o + 1)).finish ⟨rest, o + 1⟩
  | ['\\'], o, s => s.breakOff (Content.fault .endInString (o + 1)) (Content.fault .endInString (o + 1))
  | '\\' :: 'u' :: rest, o, s =>
    let left := (Cursor.mk rest 0).bytesLeft
    let broken :=
      if left < 4 then Content.fault .endInString (o + 2 + left)
      else Content.fault .badEscape (o + 6)
    match rest with
    | a :: b :: c :: d :: rest =>
      match unit? a b c d with
      | some unit => scanFrom rest (o + 6) (s.pushUnit unit (o + 6))
      | none => s.breakOff broken broken
    | _ => s.breakOff broken broken
  | '\\' :: e :: rest, o, s =>
    let s := s.unpaired (o + 2)
    match escape? e with
    | some c => scanFrom rest (o + 2) (s.push c)
    | none => s.breakOff (Content.fault .badEscape (o + 2)) (Content.fault .badEscape (o + 2))
  | c :: rest, o, s =>
    let s := s.unpaired (o + 1)
    if c.toNat < 32 then
      s.breakOff (Content.fault .controlCharacter (o + 1)) (Content.fault .controlCharacter o)
    else scanFrom rest (o + c.utf8Size) (s.push c)

/-- The string that begins after an opening quote. -/
def scan (c : Cursor) : Quotation := scanFrom c.rest c.offset {}

end Quotation

end FormRules.Json
