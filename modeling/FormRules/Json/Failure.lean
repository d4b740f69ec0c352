-- SUMMARY: Why a JSON document cannot be read, where that shows, and the message about it.
import FormRules.Json.Basic
import FormRules.Path
import FormRules.Text.Quoted

/-!
# Failures of reading

A document is unreadable because its text is no JSON, or because its values are not those that the
reader wants. Either is a `Cause`. A `Fault` is a cause at an offset of the text, a `Failure` a
cause at a path of the document, whose offset may still be open.
-/

namespace FormRules.Json

/-! ## Causes -/

/-- What can be wrong with the characters of a text. -/
inductive Malformation where
  | endInValue
  | endInList
  | endInObject
  | endInString
  | expectedValue
  | expectedWord
  | expectedColon
  | expectedListEnd
  | expectedObjectEnd
  | keyNotText
  | trailingComma
  | trailingCharacters
  | nestedTooDeep
  | badNumber
  | numberTooLarge
  | controlCharacter
  | badEscape
  | loneSurrogate
  | unpairedSurrogate
  deriving DecidableEq, Repr, Inhabited

def Malformation.text : Malformation → String
  | endInValue => "EOF while parsing a value"
  | endInList => "EOF while parsing a list"
  | endInObject => "EOF while parsing an object"
  | endInString => "EOF while parsing a string"
  | expectedValue => "expected value"
  | expectedWord => "expected ident"
  | expectedColon => "expected `:`"
  | expectedListEnd => "expected `,` or `]`"
  | expectedObjectEnd => "expected `,` or `\x7d`"
  | keyNotText => "key must be a string"
  | trailingComma => "trailing comma"
  | trailingCharacters => "trailing characters"
  | nestedTooDeep => "recursion limit exceeded"
  | badNumber => "invalid number"
  | numberTooLarge => "number out of range"
  | controlCharacter => "control character (\\u0000-\\u001F) found while parsing a string"
  | badEscape => "invalid escape"
  | loneSurrogate => "lone leading surrogate in hex escape"
  | unpairedSurrogate => "unexpected end of hex escape"

/-- A value without parts. -/
inductive Scalar where
  | null
  | bool (b : Bool)
  | number (n : Number)
  | text (s : String)
  deriving DecidableEq, Repr, Inhabited

def Scalar.toJson : Scalar → Json
  | null => .null
  | bool b => .bool b
  | number n => .number n
  | text s => .text s

/-- What stands where something else was wanted. -/
inductive Found where
  | scalar (s : Scalar)
  | list
  | object
  deriving DecidableEq, Repr, Inhabited

/-- How a message shows what stands in the wrong place. -/
def Found.shown : Found → String
  | scalar .null => "null"
  | scalar (.bool true) => "boolean `true`"
  | scalar (.bool false) => "boolean `false`"
  | scalar (.number (.double d)) => "floating point `" ++ d.text ++ "`"
  | scalar (.number n) => "integer `" ++ n.text ++ "`"
  | scalar (.text s) => "string " ++ Text.quoted s
  | list => "sequence"
  | object => "map"

/-- What a reader can want. -/
inductive Wanted where
  | text
  | bool
  | list
  | object
  | record (name : String)
  deriving DecidableEq, Repr, Inhabited

/-- How a message names what is wanted. -/
def Wanted.shown : Wanted → String
  | text => "a string"
  | bool => "a boolean"
  | list => "a sequence"
  | object => "a map"
  | record name => "struct " ++ name

/-- Why a document cannot be read. -/
inductive Cause where
  | malformed (m : Malformation)
  | wrongType (found : Found) (wanted : Wanted)
  | missingKey (key : String)
  | repeatedKey (key : String)
  | tooFew (count : Nat) (record : String) (size : Nat)
  | tooMany (count : Nat)
  | noVariant (name : String)
  deriving DecidableEq, Repr, Inhabited

def Cause.text : Cause → String
  | malformed m => m.text
  | wrongType found wanted => "invalid type: " ++ found.shown ++ ", expected " ++ wanted.shown
  | missingKey key => "missing field `" ++ key ++ "`"
  | repeatedKey key => "duplicate field `" ++ key ++ "`"
  | tooFew count record size =>
    "invalid length " ++ count.repr ++ ", expected struct " ++ record ++ " with " ++ size.repr
      ++ (if size = 1 then " element" else " elements")
  | tooMany count => "invalid length " ++ count.repr ++ ", expected fewer elements in array"
  | noVariant name => "data did not match any variant of untagged enum " ++ name

/-! ## Places -/

/-- A line, counted from one, and the number of bytes before a place in it. -/
structure Position where
  line : Nat
  column : Nat
  deriving DecidableEq, Repr, Inhabited

/-- Go on by a number of bytes. -/
def Position.advance : List Char → Nat → Position → Position
  | _, 0, p => p
  | [], _ + 1, p => p
  | c :: cs, bytes + 1, p =>
    if c = '\n' then advance cs bytes ⟨p.line + 1, 0⟩
    else
      advance cs (bytes + 1 - c.utf8Size) ⟨p.line, p.column + min c.utf8Size (bytes + 1)⟩

/-- The position of a byte offset of a text. -/
def Position.ofOffset (source : String) (offset : Nat) : Position :=
  Position.advance source.toList offset ⟨1, 0⟩

/-- A cause at an offset of the text. -/
structure Fault where
  cause : Cause
  offset : Nat
  deriving DecidableEq, Repr, Inhabited

/-- A cause at a path of the document. It gets an offset at the latest from the container in which
it arises. -/
structure Failure where
  path : Path
  cause : Cause
  offset : Option Nat
  deriving DecidableEq, Repr, Inhabited

namespace Failure

def unplaced (cause : Cause) : Failure := ⟨.root, cause, none⟩

def placed (cause : Cause) (offset : Nat) : Failure := ⟨.root, cause, some offset⟩

/-- The failure that a fault of the text brings. -/
def ofFault (f : Fault) : Failure := placed f.cause f.offset

/-- The same failure, seen from the container of the value. -/
def under (s : Segment) (f : Failure) : Failure := { f with path := f.path.under s }

/-- Give the failure an offset, unless it has one. -/
def placedAt (offset : Nat) (f : Failure) : Failure :=
  { f with offset := some (f.offset.getD offset) }

def text (f : Failure) : String := f.cause.text

/-- The words for a failure, with its place in the text. -/
def textIn (source : String) (f : Failure) : String :=
  match f.offset with
  | none => f.text
  | some offset =>
    let p := Position.ofOffset source offset
    f.text ++ " at line " ++ p.line.repr ++ " column " ++ p.column.repr

/-- Put the path of a failure before the words for it. The text of the empty path is a point, and
no path that reads so is shown. -/
def withPath (f : Failure) (words : String) : String :=
  let path := Path.stepsText f.path.segments
  if f.path.segments.isEmpty || path == "." then words else path ++ ": " ++ words

end Failure

end FormRules.Json
