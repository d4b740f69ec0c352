-- SUMMARY: The state of a form: its values, what is shown and what is on offer.
import FormRules.Evaluator
import FormRules.Form.Effects
import FormRules.Layout.Initial

/-!
# Form state

A form is a layout with rules. Its state holds the values of the fields and, for each field and
section that a map has reached, whether it is shown and which choices it still offers. Setting a
value applies the maps of the choice that is made and then the effects of every rule that the
change touches; what a later map says replaces what an earlier one said.
-/

namespace FormRules

/-! ## State -/

/-- A field, by its `api_name`, or a section, by its `id`. -/
inductive Target where
  | field (apiName : String)
  | area (id : String)
  deriving DecidableEq, Repr, Inhabited

/-- What maps have changed about one target. -/
structure Presentation where
  visible : Option Bool := none
  choices : Option (List Choice) := none
  deriving Inhabited

/-- What a map says about its target is put over what was said before. -/
def Presentation.update (p : Presentation) (visible : Option Bool)
    (choices : Option (List Choice)) : Presentation :=
  { visible := visible.or p.visible, choices := choices.or p.choices }

/-- The values of a form and what maps have changed about its fields and sections. -/
structure FormState where
  values : FormValues := Table.empty
  fields : Table Presentation := Table.empty
  areas : Table Presentation := Table.empty
  deriving Inhabited

namespace FormState

/-- What maps have changed about a target, if one has reached it. -/
def presentation? (s : FormState) : Target → Option Presentation
  | .field apiName => s.fields.get? apiName
  | .area id => s.areas.get? id

/-- Put what a map says over what is known of its target. -/
def present (s : FormState) (target : Target) (visible : Option Bool)
    (choices : Option (List Choice)) : FormState :=
  let p := ((s.presentation? target).getD {}).update visible choices
  match target with
  | .field apiName => { s with fields := s.fields.insert apiName p }
  | .area id => { s with areas := s.areas.insert id p }

/-- Store the value of a field. -/
def store (s : FormState) (apiName value : String) : FormState :=
  { s with values := s.values.insert apiName value }

/-- What the last map said about the visibility of a target. -/
def visible? (s : FormState) (target : Target) : Option Bool :=
  (s.presentation? target).bind (·.visible)

end FormState

/-! ## Forms -/

/-- A layout and the rules that run on it. -/
structure Form where
  layout : Layout
  evaluator : Evaluator
  deriving Inhabited

namespace Form

/-- The target of a map: the field of its `api_name`, otherwise the section of its `id`, otherwise
the field with that `id`. -/
def target? (f : Form) (m : FieldMap) : Option Target :=
  match m.apiName with
  | some apiName => some (.field apiName)
  | none =>
    match m.id with
    | none => none
    | some id =>
      if (f.layout.section? id).isSome then some (.area id)
      else
        (f.layout.fields.find? (·.id = some id)).bind fun found => found.apiName.map .field

/-- The choices of the layout for a field whose actual value is among those that a map lists. -/
def restricted (f : Form) (apiName : String) (listed : List Choice) : List Choice :=
  let offered := listed.filterMap (·.actualValue)
  match f.layout.field? apiName with
  | none => []
  | some field =>
    field.choiceList.filter fun choice =>
      match choice.actualValue with
      | some value => offered.contains value
      | none => false

/-- The choices that a map leaves its target. A section has none. -/
def mapChoices (f : Form) (target : Target) (m : FieldMap) : Option (List Choice) :=
  match target with
  | .field apiName => m.choices.map (f.restricted apiName)
  | .area _ => none

/-- Apply a map. One without a target changes nothing. -/
def applyMap (f : Form) (s : FormState) (m : FieldMap) : FormState :=
  match f.target? m with
  | none => s
  | some target => s.present target m.visible (f.mapChoices target m)

def applyMaps (f : Form) (s : FormState) (maps : List FieldMap) : FormState :=
  maps.foldl f.applyMap s

/-- The maps of the choice that is made when a field gets a value. -/
def choiceMaps (f : Form) (apiName value : String) : List FieldMap :=
  match (f.layout.field? apiName).bind (·.choice? value) with
  | some choice => choice.maps.getD []
  | none => []

/-- The maps that follow when a field has got a value: those of the choice, then the effects of the
rules that the change touches. -/
def mapsAfter (f : Form) (values : FormValues) (apiName value : String) :
    Except EvaluationError (List FieldMap) :=
  (f.evaluator.evaluateUpdated values [apiName]).map fun outcomes =>
    f.choiceMaps apiName value ++ outcomes.flatMap fun o => effectMaps o.effects

/-- Set the value of a field. If a rule cannot be evaluated the value is stored all the same, and no
map is applied. -/
def set (f : Form) (s : FormState) (apiName value : String) : FormState × Option EvaluationError :=
  let stored := s.store apiName value
  match f.mapsAfter stored.values apiName value with
  | .ok maps => (f.applyMaps stored maps, none)
  | .error e => (stored, some e)

/-- Set the initial value of each of some fields that has one, up to the first error. -/
def setAll (f : Form) (initial : FormValues) (s : FormState) :
    List String → Except EvaluationError FormState
  | [] => .ok s
  | apiName :: rest =>
    match initial.get? apiName with
    | none => f.setAll initial s rest
    | some value =>
      match f.set s apiName value with
      | (s, none) => f.setAll initial s rest
      | (_, some e) => .error e

/-- The state in which a form starts: its initial values are set one by one, in the order in which
the layout first declares their fields. -/
def start (f : Form) (provided : FormValues) : Except EvaluationError FormState :=
  f.setAll (f.layout.initialValues provided) {} (firstOccurrences [] f.layout.declaredNames)

end Form

end FormRules
