-- SUMMARY: Rules extracted from the maps that choices declare.
import FormRules.Layout.Validation

/-!
# Extraction

Every choice that mentions maps yields a rule: when its field has the choice's value, the maps take
effect. The rules stand in document order. A key is required only where it is read, and the first
one missing fails the whole extraction.
-/

namespace FormRules

/-- What becomes of the maps of a choice. -/
inductive DependentPolicy where
  /-- They are not read, and the rule has no effects. -/
  | ignore
  /-- They are the effects of the fulfilled rule. -/
  | fulfill
  deriving DecidableEq, Repr, Inhabited

namespace FieldMap

/-- The field or section that a map shows or hides: its `api_name`, otherwise its `id`. -/
def visibilityTarget? (m : FieldMap) : Option Operand :=
  match m.apiName, m.id with
  | some apiName, _ => some (.ofField apiName)
  | none, some id => some (.ofSection id)
  | none, none => none

/-- A map that says whether its target is shown has that effect, if it has a target. -/
def visibilityEffects (m : FieldMap) : List Call :=
  match m.visible, m.visibilityTarget? with
  | some visible, some target => [.setVisible visible target]
  | _, _ => []

/-- The choices that a map leaves on offer. -/
def dependents (m : FieldMap) : List Choice := m.choices.getD []

/-- The effect that a dependent choice is on offer. Its field is its own, or else that of the map. -/
def allowEffect (m : FieldMap) (path : Path) (dependent : Choice) : Except LayoutError Call := do
  let apiName ← require (dependent.apiName.or m.apiName) path "api_name"
  let actualValue ← require dependent.actualValue path "actual_value"
  return .allow apiName actualValue

/-- The effects of a map: visibility first, then one effect for each dependent choice. -/
def effects (path : Path) (m : FieldMap) : Except LayoutError (List Call) := do
  let allows ← checkAll m.allowEffect (path.key "pick_list_values") 0 m.dependents
  return m.visibilityEffects ++ allows

end FieldMap

/-- Extraction of rules: which data types mark fields with choices, and what becomes of maps. -/
structure Extractor where
  dataTypes : List String := ["pick_list"]
  policy : DependentPolicy := .ignore
  deriving DecidableEq, Repr, Inhabited

namespace Extractor

/-- An extractor that accepts further data types. -/
def withDataTypes (x : Extractor) (dataTypes : List String) : Extractor :=
  { x with dataTypes := x.dataTypes ++ dataTypes }

/-- Whether the choices of a field are looked at. -/
def accepts (x : Extractor) (f : Field) : Bool := x.dataTypes.contains f.dataType

/-- The effects that the rule of a choice has. -/
def effects (x : Extractor) (path : Path) (maps : List FieldMap) :
    Except LayoutError (List Call) :=
  match x.policy with
  | .ignore => .ok []
  | .fulfill => (checkAll FieldMap.effects (path.key "maps") 0 maps).map List.flatten

/-- The rule of a choice, if it mentions maps. -/
def choiceRules (x : Extractor) (fieldPath : Path) (f : Field) (path : Path) (choice : Choice) :
    Except LayoutError (List Rule) :=
  match choice.maps with
  | none => .ok []
  | some maps => do
    let apiName ← require f.apiName fieldPath "api_name"
    let actualValue ← require choice.actualValue path "actual_value"
    let fulfilled ← x.effects path maps
    return [{ condition := .is apiName actualValue, fulfilled }]

/-- The rules of a field, which is at a path. -/
def fieldRules (x : Extractor) (path : Path) (f : Field) : Except LayoutError (List Rule) :=
  if x.accepts f then do
    let choices ← require f.choices path "pick_list_values"
    let rules ← checkAll (x.choiceRules path f) (path.key "pick_list_values") 0 choices
    return rules.flatten
  else .ok []

/-- The rules of a section, which is at a path. -/
def sectionRules (x : Extractor) (path : Path) (s : Section) : Except LayoutError (List Rule) :=
  (checkAll x.fieldRules (path.key "fields") 0 s.fields).map List.flatten

/-- The rules of a layout, in document order. -/
def extract (x : Extractor) (l : Layout) : Except LayoutError (List Rule) :=
  (checkAll x.sectionRules (Path.root.key "sections") 0 l.sections).map List.flatten

end Extractor

end FormRules
