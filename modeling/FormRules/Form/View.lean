-- SUMMARY: What a form shows: visible fields and sections, choices on offer, and missing values.
import FormRules.Form.State

/-!
# What a form shows

The last map that said something about a field or section decides, otherwise the layout does.
A hidden section hides its fields. A form is valid when no required field that is shown lacks a
value.
-/

namespace FormRules.Form

def isSectionVisible (f : Form) (s : FormState) (id : String) : Bool :=
  ((s.visible? (.area id)).or ((f.layout.section? id).bind (·.visible))).getD true

/-- Whether a section, which may lack an id, is shown. Without an id nothing hides it. -/
def isShown (f : Form) (s : FormState) (held : Section) : Bool :=
  match held.id with
  | none => true
  | some id => f.isSectionVisible s id

def isFieldVisible (f : Form) (s : FormState) (apiName : String) : Bool :=
  match f.layout.locate? apiName with
  | none => false
  | some (held, field) =>
    f.isShown s held && ((s.visible? (.field apiName)).or field.visible).getD true

def allowedChoices (f : Form) (s : FormState) (apiName : String) : Option (List Choice) :=
  ((s.presentation? (.field apiName)).bind (·.choices)).or
    ((f.layout.field? apiName).bind (·.choices))

/-- Whether a field has a value that is not empty. -/
def isFilled (s : FormState) (apiName : String) : Bool :=
  match s.values.get? apiName with
  | some value => !value.isEmpty
  | none => false

/-- The names that required fields declare, in document order, each once. -/
def requiredNames (f : Form) : List String :=
  firstOccurrences [] ((f.layout.fields.filter (·.required)).filterMap (·.apiName))

/-- The required fields that are shown and have no value. -/
def missingRequired (f : Form) (s : FormState) : List String :=
  f.requiredNames.filter fun apiName => f.isFieldVisible s apiName && !isFilled s apiName

/-- Whether every required field that is shown has a value. -/
def isValid (f : Form) (s : FormState) : Bool := (f.missingRequired s).isEmpty

end FormRules.Form
