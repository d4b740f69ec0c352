-- SUMMARY: What is logged about parts of a document or of a rule that are ignored.
import FormRules.Path
import FormRules.Text.Quoted

/-!
# Warnings

A map or an effect that says something without saying what about is ignored, and so is one that says
something unknown. A line on the standard error tells of it. The text of a warning is the message of
that line and the fields after it. What the log puts before the message (time, level and place) and
its colors are left out. So is what it shows when it is set to show more or less than warnings, as a
verbose run does.
-/

namespace FormRules

inductive Warning where
  /-- A map shows or hides something without a name. -/
  | aimlessMap (path : Path)
  /-- An effect shows or hides something without a name. -/
  | aimlessEffect (func : String)
  /-- An effect puts a choice on offer, but lacks its field or its value. -/
  | incompleteAllow
  /-- An effect of an unknown kind. -/
  | unknownEffect (func : String)
  /-- A map on nothing in the layout, with its `id` if it has one. -/
  | unknownTarget (id : Option String)
  deriving DecidableEq, Repr, Inhabited

namespace Warning

/-- How a field of a line shows a text that may be missing. -/
def optionText : Option String → String
  | some s => "Some(" ++ Text.quoted s ++ ")"
  | none => "None"

def text : Warning → String
  | aimlessMap path =>
    "map declares visibility without an api_name or id; ignoring path=" ++ path.text
  | aimlessEffect func => "effect has no target; ignoring func=" ++ func
  | incompleteAllow => "allow effect needs a field and a value; ignoring"
  | unknownEffect func => "unsupported rule effect; ignoring func=" ++ func
  | unknownTarget id => "map target not found in the layout; ignoring id=" ++ optionText id

end Warning

end FormRules
