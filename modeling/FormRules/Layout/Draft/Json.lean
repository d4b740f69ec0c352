-- SUMMARY: The JSON form of drafts, written and read.
import FormRules.Layout.Draft.Basic
import FormRules.Rule.Json

/-!
# Drafts as JSON

A draft is written with the keys that it has, in a fixed order. In the array form of a draft, a
section, a field or a map no value may be missing; only the maps of a choice may.
-/

namespace FormRules

open Json (Reader Slot)

/-! ## Writing -/

mutual

/-- A choice lists the keys that it has; `maps` may be `null`. -/
def DraftChoice.toJson : DraftChoice → Json
  | { actualValue, displayValue, apiName, maps } =>
    .object <|
      Json.entry? "actual_value" (actualValue.map .text)
        ++ Json.entry? "display_value" (displayValue.map .text)
        ++ Json.entry? "api_name" (apiName.map .text)
        ++ match maps with
          | none => []
          | some none => [("maps", .null)]
          | some (some ms) => [("maps", .list (draftMapsToJson ms))]

def DraftMap.toJson : DraftMap → Json
  | { apiName, id, visible, choices } =>
    .object <|
      Json.entry? "api_name" (apiName.map .text) ++ Json.entry? "id" (id.map .text)
        ++ Json.entry? "visible" (visible.map .bool)
        ++ match choices with
          | none => []
          | some cs => [("pick_list_values", .list (draftChoicesToJson cs))]

def draftMapsToJson : List DraftMap → List Json
  | [] => []
  | m :: rest => m.toJson :: draftMapsToJson rest

def draftChoicesToJson : List DraftChoice → List Json
  | [] => []
  | c :: rest => c.toJson :: draftChoicesToJson rest

end

@[simp] theorem draftMapsToJson_eq_map (ms : List DraftMap) :
    draftMapsToJson ms = ms.map DraftMap.toJson := by
  induction ms with
  | nil => rfl
  | cons m rest ih => simp [draftMapsToJson, ih]

@[simp] theorem draftChoicesToJson_eq_map (cs : List DraftChoice) :
    draftChoicesToJson cs = cs.map DraftChoice.toJson := by
  induction cs with
  | nil => rfl
  | cons c rest ih => simp [draftChoicesToJson, ih]

def DraftField.toJson (f : DraftField) : Json :=
  .object <|
    Json.entry? "id" (f.id.map .text) ++ Json.entry? "api_name" (f.apiName.map .text)
      ++ Json.entry? "data_type" (f.dataType.map .text)
      ++ Json.entry? "field_label" (f.label.map .text)
      ++ Json.entry? "json_type" (f.jsonType.map .text)
      ++ Json.entry? "required" (f.required.map .bool)
      ++ Json.entry? "visible" (f.visible.map .bool)
      ++ Json.entry? "default_value" f.defaultValue
      ++ Json.entry? "pick_list_values" (f.choices.map fun cs => .list (cs.map DraftChoice.toJson))

def DraftSection.toJson (s : DraftSection) : Json :=
  .object <|
    Json.entry? "id" (s.id.map .text) ++ Json.entry? "name" (s.name.map .text)
      ++ Json.entry? "visible" (s.visible.map .bool)
      ++ Json.entry? "fields" (s.fields.map fun fs => .list (fs.map DraftField.toJson))

def Draft.toJson (d : Draft) : Json :=
  .object <|
    Json.entry? "sections" (d.sections.map fun ss => .list (ss.map DraftSection.toJson))
      ++ Json.entry? "rules" (d.rules.map RuleSet.toJson)

/-! ## Reading -/

/-- Reads a map whose choices are read by `self`. -/
def DraftMap.readerWith (self : Reader DraftChoice) : Reader DraftMap :=
  .record "RawFieldMap" [
    .optional "api_name" .text fun apiName m => { m with apiName },
    .optional "id" .text fun id m => { m with id },
    .optional "visible" .bool fun visible m => { m with visible },
    .optional "pick_list_values" (.list self) fun choices m => { m with choices }] {}

/-- Reads a choice whose nested choices are read by `self`. -/
def DraftChoice.readerStep (self : Reader DraftChoice) : Reader DraftChoice :=
  .record "RawPickListValue" [
    .optional "actual_value" .text fun actualValue c => { c with actualValue },
    .optional "display_value" .text fun displayValue c => { c with displayValue },
    .optional "api_name" .text fun apiName c => { c with apiName },
    .defaulted "maps" (.optional (.list (DraftMap.readerWith self)))
      fun maps c => { c with maps := some maps }] {}

def DraftChoice.reader : Reader DraftChoice := .fix DraftChoice.readerStep

def DraftField.reader : Reader DraftField :=
  .record "RawField" [
    .optional "id" .text fun id f => { f with id },
    .optional "api_name" .text fun apiName f => { f with apiName },
    .optional "data_type" .text fun dataType f => { f with dataType },
    .optional "field_label" .text fun label f => { f with label },
    .optional "json_type" .text fun jsonType f => { f with jsonType },
    .optional "required" .bool fun required f => { f with required },
    .optional "visible" .bool fun visible f => { f with visible },
    .optional "default_value" .any fun defaultValue f => { f with defaultValue },
    .optional "pick_list_values" (.list DraftChoice.reader) fun choices f => { f with choices }] {}

def DraftSection.reader : Reader DraftSection :=
  .record "RawSection" [
    .optional "id" .text fun id s => { s with id },
    .optional "name" .text fun name s => { s with name },
    .optional "visible" .bool fun visible s => { s with visible },
    .optional "fields" (.list DraftField.reader) fun fields s => { s with fields }] {}

def Draft.reader : Reader Draft :=
  .record "RawDocument" [
    .optional "sections" (.list DraftSection.reader) fun sections d => { d with sections },
    .optional "rules" RuleSet.reader fun rules d => { d with rules }] {}

end FormRules
