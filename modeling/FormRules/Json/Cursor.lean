-- SUMMARY: Places in a text, counted in bytes.

/-!
# Cursors

A cursor is what is left of a text, with the number of bytes before it. Messages count in bytes, so
every step says how many it takes.
-/

namespace FormRules.Json

/-- What is left of a text, and the number of bytes before it. -/
structure Cursor where
  rest : List Char
  offset : Nat
  deriving DecidableEq, Repr, Inhabited

namespace Cursor

def ofText (source : String) : Cursor := ⟨source.toList, 0⟩

def isBlank (c : Char) : Bool := c = ' ' || c = '\t' || c = '\n' || c = '\r'

/-- Go over the characters of a class, each of one byte. -/
def skipWhile (p : Char → Bool) (c : Cursor) : Cursor :=
  ⟨c.rest.dropWhile p, c.offset + (c.rest.takeWhile p).length⟩

def skipBlanks (c : Cursor) : Cursor := c.skipWhile isBlank

/-- The offset after the next byte, or at the end of the text the offset of the end. -/
def peek (c : Cursor) : Nat := if c.rest.isEmpty then c.offset else c.offset + 1

def bytesLeft (c : Cursor) : Nat := c.rest.foldr (fun ch bytes => ch.utf8Size + bytes) 0

/-- The decimal digits that follow, and the place after them. -/
def digits (c : Cursor) : List Char × Cursor :=
  (c.rest.takeWhile Char.isDigit, c.skipWhile Char.isDigit)

end Cursor

end FormRules.Json
