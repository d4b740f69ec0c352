-- SUMMARY: The values of a form's fields.
import FormRules.Json.Reader

/-!
# Form values

The current values of a form are texts, each under the `api_name` of its field. A field without an
entry has no value.
-/

namespace FormRules

/-- The value of each field that has one. -/
abbrev FormValues := Table String

namespace FormValues

def toJson (values : FormValues) : Json :=
  .object (values.entries.map fun (name, value) => (name, .text value))

/-- Reads form values: an object of strings. -/
def reader : Json.Reader FormValues := .table .text

def ofText (source : String) : Except Json.Failure FormValues := reader.fromText source

def ofJson (j : Json) : Except Json.Failure FormValues := reader.fromJson j

end FormValues

end FormRules
