-- SUMMARY: Layouts from JSON values, texts, bytes and files.
import FormRules.File
import FormRules.Layout.Draft.Json
import FormRules.Layout.Validation

/-!
# Loading

A layout comes from a JSON value, or from a text that holds one. Reading errors come first, then
what follows the document in the text, then the keys that are missing.
-/

namespace FormRules

namespace Draft

def ofJson (j : Json) : Except LayoutError Draft :=
  (reader.fromJson j).mapError (.unreadable · none)

/-- The draft at the front of a text. -/
def ofFront (source : String) : Except LayoutError Draft :=
  (reader.fromFront source).mapError (.unreadable · (some source))

def ofText (source : String) : Except LayoutError Draft :=
  (reader.fromText source).mapError (.unreadable · (some source))

end Draft

/-- Why a layout cannot be loaded. -/
inductive LoadError where
  | unavailable (path : String) (error : FileError)
  | invalid (error : LayoutError)
  deriving DecidableEq, Repr, Inhabited

def LoadError.message : LoadError → String
  | unavailable path error => "Could not read layout '" ++ path ++ "': " ++ error.message
  | invalid error => error.message

namespace Layout

/-- The file that holds the layout if nothing else is said. -/
def defaultPath : String := "fixture.json"

def ofJson (j : Json) : Except LayoutError Layout := Draft.ofJson j >>= Draft.validate

def ofText (source : String) : Except LayoutError Layout := Draft.ofText source >>= Draft.validate

def ofBytes (bytes : ByteArray) : Except LoadError Layout :=
  match String.fromUTF8? bytes with
  | none => .error (.unavailable "<reader>" .notText)
  | some source => (ofText source).mapError .invalid

/-- The layout of a file, whose content or error is given. -/
def ofFile (path : String) (content : Except FileError String) : Except LoadError Layout :=
  match content with
  | .error e => .error (.unavailable path e)
  | .ok source => (ofText source).mapError .invalid

end Layout

end FormRules
