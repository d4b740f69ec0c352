-- SUMMARY: The values with which the fields of a layout start.
import FormRules.Layout.Basic
import FormRules.Values

/-!
# Initial values

A field that offers choices starts on the first of them. Any other field takes the value that the
caller provides, unless that is empty, and else its own default. The fields of a layout are gone
through in document order, so that the last one of a name decides, even if it has no value.
-/

namespace FormRules

/-- The text of a default value. Arrays, objects and `null` are no values of a field. -/
def Json.asFieldValue : Json → Option String
  | .text s => some s
  | .number n => some n.text
  | .bool true => some "true"
  | .bool false => some "false"
  | _ => none

/-- The value with which a field of a given name starts. -/
def Field.initialValue (f : Field) (apiName : String) (provided : FormValues) : Option String :=
  match f.choiceList with
  | first :: _ => first.actualValue
  | [] =>
    match provided.get? apiName with
    | some value =>
      if value.isEmpty then f.defaultValue.bind Json.asFieldValue else some value
    | none => f.defaultValue.bind Json.asFieldValue

/-- Store the initial value of a field, or forget its name. -/
def Field.store (provided values : FormValues) (f : Field) : FormValues :=
  match f.apiName with
  | none => values
  | some apiName =>
    match f.initialValue apiName provided with
    | some value => values.insert apiName value
    | none => values.erase apiName

/-- The values with which a form starts. -/
def Layout.initialValues (l : Layout) (provided : FormValues) : FormValues :=
  l.fields.foldl (Field.store provided) Table.empty

end FormRules
