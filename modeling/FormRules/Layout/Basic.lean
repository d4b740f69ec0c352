-- SUMMARY: Form layouts: sections of fields, their choices, and what a choice declares for others.
import FormRules.Rule.Basic
import FormRules.Json.Basic

/-!
# Layouts

A layout lists the sections of a form, a section its fields. A field may offer choices, and a choice
may carry maps: declarations of what becomes of other fields and sections when it is chosen. The
choices that a map lists may carry maps of their own, to any depth.
-/

namespace FormRules

mutual

/-- A value that a field offers. `apiName` is set on choices inside a map; `maps` is there as soon
as the layout mentions it, be it empty. -/
structure Choice where
  actualValue : Option String := none
  displayValue : Option String := none
  apiName : Option String := none
  maps : Option (List FieldMap) := none

/-- What a choice declares for another field or section: whether it is shown, and which choices it
still offers. -/
structure FieldMap where
  apiName : Option String := none
  id : Option String := none
  visible : Option Bool := none
  choices : Option (List Choice) := none

end

instance : Inhabited Choice := ⟨{}⟩
instance : Inhabited FieldMap := ⟨{}⟩

structure Field where
  apiName : Option String := none
  dataType : String
  id : Option String := none
  label : Option String := none
  jsonType : Option String := none
  required : Bool := false
  visible : Option Bool := none
  defaultValue : Option Json := none
  choices : Option (List Choice) := none
  deriving Inhabited

structure Section where
  id : Option String := none
  name : Option String := none
  visible : Option Bool := none
  fields : List Field := []
  deriving Inhabited

/-- The layout of a form, with the rules that come along with it. -/
structure Layout where
  sections : List Section := []
  rules : List Rule := []
  deriving Inhabited

/-- Whether a choice mentions maps at all. -/
def Choice.hasMaps (c : Choice) : Bool := c.maps.isSome

/-- Each text where it stands first, except for those seen before. -/
def firstOccurrences (seen : List String) : List String → List String
  | [] => []
  | s :: rest =>
    if s ∈ seen then firstOccurrences seen rest else s :: firstOccurrences (s :: seen) rest

namespace Field

/-- The choices of a field that offers any. -/
def choiceList (f : Field) : List Choice := f.choices.getD []

/-- The first choice with a given actual value. -/
def choice? (f : Field) (value : String) : Option Choice :=
  f.choiceList.find? (·.actualValue = some value)

end Field

namespace Layout

/-- The fields with the index of their section and their index there, in document order. -/
def indexedFields (l : Layout) : List (Nat × Nat × Field) :=
  l.sections.zipIdx.flatMap fun (s, i) => s.fields.zipIdx.map fun (f, j) => (i, j, f)

def fields (l : Layout) : List Field := l.sections.flatMap (·.fields)

/-- The last field that declares a name. -/
def field? (l : Layout) (apiName : String) : Option Field :=
  (l.fields.filter (·.apiName = some apiName)).getLast?

def section? (l : Layout) (id : String) : Option Section :=
  l.sections.find? (·.id = some id)

/-- The names that fields declare, in document order, as often as they are declared. -/
def declaredNames (l : Layout) : List String := l.fields.filterMap (·.apiName)

/-- The last field that declares a name, with the section that holds it: the search goes backwards
through the sections and backwards through the fields of each. -/
def locate? (l : Layout) (apiName : String) : Option (Section × Field) :=
  l.sections.reverse.findSome? fun s =>
    (s.fields.reverse.find? (·.apiName = some apiName)).map fun f => (s, f)

end Layout

end FormRules
