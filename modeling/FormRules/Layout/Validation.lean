-- SUMMARY: From a draft to a layout: the keys that must be there, and the first one that is not.
import FormRules.Layout.Basic
import FormRules.Layout.Draft.Basic
import FormRules.Json.Failure

/-!
# Validation

A draft is a layout once it has sections, every section has fields and every field a data type. The
first missing key in document order is reported with the path of the object that lacks it. All other
keys stay optional; who needs one asks for it.
-/

namespace FormRules

/-- Why there is no layout, or why its rules cannot be extracted. -/
inductive LayoutError where
  /-- The object at a path lacks a key. -/
  | missingKey (key : String) (path : Path)
  /-- The document cannot be read. The text that it was read from gives the failure its place. -/
  | unreadable (failure : Json.Failure) (source : Option String)
  deriving DecidableEq, Repr, Inhabited

namespace LayoutError

def message : LayoutError → String
  | missingKey key path => "Missing required key '" ++ key ++ "' at " ++ path.text
  | unreadable failure none => "Malformed layout input: " ++ failure.withPath failure.text
  | unreadable failure (some source) =>
    "Malformed layout input: " ++ failure.withPath (failure.textIn source)

end LayoutError

/-- The value under a key that the object at `path` must have. -/
def require (value : Option α) (path : Path) (key : String) : Except LayoutError α :=
  match value with
  | some x => .ok x
  | none => .error (.missingKey key path)

@[simp] theorem require_some (x : α) (path : Path) (key : String) :
    require (some x) path key = .ok x := rfl

@[simp] theorem require_none (path : Path) (key : String) :
    require (none : Option α) path key = .error (.missingKey key path) := rfl

/-- Apply a check to every element of the array at `path`, from a given index on. -/
def checkAll (check : Path → α → Except LayoutError β) (path : Path) (index : Nat) :
    List α → Except LayoutError (List β)
  | [] => .ok []
  | x :: rest => do
    let y ← check (path.index index) x
    let ys ← checkAll check path (index + 1) rest
    .ok (y :: ys)

mutual

/-- A choice needs no key. Maps that are `null` are there, and empty. -/
def DraftChoice.toChoice : DraftChoice → Choice
  | { actualValue, displayValue, apiName, maps := none } =>
    { actualValue, displayValue, apiName, maps := none }
  | { actualValue, displayValue, apiName, maps := some none } =>
    { actualValue, displayValue, apiName, maps := some [] }
  | { actualValue, displayValue, apiName, maps := some (some ms) } =>
    { actualValue, displayValue, apiName, maps := some (draftMapsToMaps ms) }

def DraftMap.toFieldMap : DraftMap → FieldMap
  | { apiName, id, visible, choices := none } => { apiName, id, visible, choices := none }
  | { apiName, id, visible, choices := some cs } =>
    { apiName, id, visible, choices := some (draftChoicesToChoices cs) }

def draftMapsToMaps : List DraftMap → List FieldMap
  | [] => []
  | m :: rest => m.toFieldMap :: draftMapsToMaps rest

def draftChoicesToChoices : List DraftChoice → List Choice
  | [] => []
  | c :: rest => c.toChoice :: draftChoicesToChoices rest

end

@[simp] theorem draftMapsToMaps_eq_map (ms : List DraftMap) :
    draftMapsToMaps ms = ms.map DraftMap.toFieldMap := by
  induction ms with
  | nil => rfl
  | cons m rest ih => simp [draftMapsToMaps, ih]

@[simp] theorem draftChoicesToChoices_eq_map (cs : List DraftChoice) :
    draftChoicesToChoices cs = cs.map DraftChoice.toChoice := by
  induction cs with
  | nil => rfl
  | cons c rest ih => simp [draftChoicesToChoices, ih]

/-- A field needs a data type. It is optional unless it says otherwise. -/
def DraftField.validate (path : Path) (f : DraftField) : Except LayoutError Field := do
  let dataType ← require f.dataType path "data_type"
  return {
    apiName := f.apiName
    dataType
    id := f.id
    label := f.label
    jsonType := f.jsonType
    required := f.required.getD false
    visible := f.visible
    defaultValue := f.defaultValue
    choices := f.choices.map fun cs => cs.map DraftChoice.toChoice }

def DraftSection.validate (path : Path) (s : DraftSection) : Except LayoutError Section := do
  let fields ← require s.fields path "fields"
  let fields ← checkAll DraftField.validate (path.key "fields") 0 fields
  return { id := s.id, name := s.name, visible := s.visible, fields }

def Draft.validate (d : Draft) : Except LayoutError Layout := do
  let sections ← require d.sections .root "sections"
  let sections ← checkAll DraftSection.validate (Path.root.key "sections") 0 sections
  return { sections, rules := d.rules.getD [] }

end FormRules
