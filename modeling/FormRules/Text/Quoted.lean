-- SUMMARY: The quoted form in which a message shows a text.
import FormRules.Text.Visible

/-!
# Quoted texts

A message shows a text between double quotes. The quote, the backslash and four control characters
have escapes of two characters; any other character without a glyph is shown by its code point.
-/

namespace FormRules.Text

/-- The digits of a number in base sixteen, in lower case and without leading zeros. -/
def hexText (n : Nat) : String := String.ofList (Nat.toDigits 16 n)

/-- How a message shows one character of a quoted text. -/
def shownChar (c : Char) : String :=
  if c = '\x00' then "\\0"
  else if c = '\t' then "\\t"
  else if c = '\n' then "\\n"
  else if c = '\r' then "\\r"
  else if c = '"' then "\\\""
  else if c = '\\' then "\\\\"
  else if isVisible c then String.singleton c
  else "\\u" ++ "\x7b" ++ hexText c.toNat ++ "\x7d"

/-- A text as a message shows it, between double quotes. -/
def quoted (s : String) : String :=
  "\"" ++ String.join (s.toList.map shownChar) ++ "\""

end FormRules.Text
