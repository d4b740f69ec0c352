-- SUMMARY: The compact and the indented text of a JSON value.
import FormRules.Json.Basic
import FormRules.Text.Quoted

/-!
# Writing JSON

The compact text of a value has no blanks. The indented text gives every element and entry a line
of its own, two blanks deeper than its container; empty containers stay on one line.
-/

namespace FormRules.Json

/-! ## Strings -/

/-- How a JSON string shows one character: the quote, the backslash and the controls below the
blank are escaped, all others stand for themselves. -/
def escapedChar (c : Char) : String :=
  if c = '"' then "\\\""
  else if c = '\\' then "\\\\"
  else if c = '\x08' then "\\b"
  else if c = '\x0c' then "\\f"
  else if c = '\n' then "\\n"
  else if c = '\r' then "\\r"
  else if c = '\t' then "\\t"
  else if c.toNat < 16 then "\\u000" ++ Text.hexText c.toNat
  else if c.toNat < 32 then "\\u00" ++ Text.hexText c.toNat
  else String.singleton c

def escaped (s : String) : String :=
  "\"" ++ String.join (s.toList.map escapedChar) ++ "\""

/-! ## Values -/

private def openBrace : String := "\x7b"
private def closeBrace : String := "\x7d"

def scalarText : Json → String
  | null => "null"
  | bool true => "true"
  | bool false => "false"
  | number n => n.text
  | text s => escaped s
  | list _ => "[]"
  | object _ => openBrace ++ closeBrace

mutual

def compact : Json → String
  | list xs => "[" ++ compactItems xs ++ "]"
  | object es => openBrace ++ compactEntries es ++ closeBrace
  | null => scalarText null
  | bool b => scalarText (bool b)
  | number n => scalarText (number n)
  | text s => scalarText (text s)

/-- The compact texts of array elements, with commas between them. -/
def compactItems : List Json → String
  | [] => ""
  | [x] => compact x
  | x :: y :: rest => compact x ++ "," ++ compactItems (y :: rest)

/-- The compact texts of object entries, with commas between them. -/
def compactEntries : List (String × Json) → String
  | [] => ""
  | [(k, x)] => escaped k ++ ":" ++ compact x
  | (k, x) :: e :: rest => escaped k ++ ":" ++ compact x ++ "," ++ compactEntries (e :: rest)

end

theorem toList_compact_object (es : List (String × Json)) :
    (compact (object es)).toList = '\x7b' :: ((compactEntries es).toList ++ ['\x7d']) := by
  simp [compact, openBrace, closeBrace]

/-- A line break and the blanks that a nesting depth asks for. -/
def newline (depth : Nat) : String := "\n" ++ String.ofList (List.replicate (2 * depth) ' ')

mutual

/-- The indented text of a value that stands at a nesting depth. -/
def indentedAt (depth : Nat) : Json → String
  | list [] => scalarText (list [])
  | list (x :: xs) =>
    "[" ++ newline (depth + 1) ++ indentedItems (depth + 1) (x :: xs) ++ newline depth ++ "]"
  | object [] => scalarText (object [])
  | object (e :: es) =>
    openBrace ++ newline (depth + 1) ++ indentedEntries (depth + 1) (e :: es) ++ newline depth
      ++ closeBrace
  | null => scalarText null
  | bool b => scalarText (bool b)
  | number n => scalarText (number n)
  | text s => scalarText (text s)

/-- The indented texts of array elements, one a line. -/
def indentedItems (depth : Nat) : List Json → String
  | [] => ""
  | [x] => indentedAt depth x
  | x :: y :: rest => indentedAt depth x ++ "," ++ newline depth ++ indentedItems depth (y :: rest)

/-- The indented texts of object entries, one a line. -/
def indentedEntries (depth : Nat) : List (String × Json) → String
  | [] => ""
  | [(k, x)] => escaped k ++ ": " ++ indentedAt depth x
  | (k, x) :: e :: rest =>
    escaped k ++ ": " ++ indentedAt depth x ++ "," ++ newline depth
      ++ indentedEntries depth (e :: rest)

end

theorem toList_indentedAt_object (depth : Nat) (e : String × Json) (es : List (String × Json)) :
    (indentedAt depth (object (e :: es))).toList
      = '\x7b' :: ((newline (depth + 1)).toList ++ ((indentedEntries (depth + 1) (e :: es)).toList
        ++ ((newline depth).toList ++ ['\x7d']))) := by
  simp [indentedAt, openBrace, closeBrace]

def write (pretty : Bool) (j : Json) : String :=
  if pretty then indentedAt 0 j else compact j

@[simp] theorem write_true (j : Json) : write true j = indentedAt 0 j := rfl

@[simp] theorem write_false (j : Json) : write false j = compact j := rfl

end FormRules.Json
