-- SUMMARY: The JSON form of rules and rule sets, written and read.
import FormRules.Rule.Basic
import FormRules.Json.Reader
import FormRules.Json.Write

/-!
# Rules as JSON

A rule is written with its condition as a single call. When it is read the condition may also be a
list of calls, all of which have to hold. An argument is read as a call if it can be, otherwise as
an operand. A rule set is an array of rules.
-/

namespace FormRules

open Json (Reader Slot)

/-! ## Writing -/

/-- An operand lists the keys that it has. -/
def Operand.toJson (o : Operand) : Json :=
  .object <|
    Json.entry? "section" (o.sectionId.map .text) ++ Json.entry? "field" (o.field.map .text)
      ++ Json.entry? "value" (o.value.map .text)

mutual

/-- A call has a name and a list of arguments. -/
def Call.toJson : Call → Json
  | ⟨func, args⟩ => .object [("func", .text func), ("args", .list (argumentsToJson args))]

/-- An argument is written as what it is, without a mark. -/
def Argument.toJson : Argument → Json
  | .call c => c.toJson
  | .operand o => o.toJson

def argumentsToJson : List Argument → List Json
  | [] => []
  | a :: rest => a.toJson :: argumentsToJson rest

end

@[simp] theorem argumentsToJson_eq_map (args : List Argument) :
    argumentsToJson args = args.map Argument.toJson := by
  induction args with
  | nil => rfl
  | cons a rest ih => simp [argumentsToJson, ih]

/-- A rule has its condition and both lists of effects. -/
def Rule.toJson (r : Rule) : Json :=
  .object [("conditions", r.condition.toJson), ("fulfilled", .list (r.fulfilled.map Call.toJson)),
    ("rejected", .list (r.rejected.map Call.toJson))]

/-! ## Reading -/

def Operand.reader : Reader Operand :=
  .record "Operand" [
    .defaulted "section" (.optional .text) fun sectionId o => { o with sectionId },
    .defaulted "field" (.optional .text) fun field o => { o with field },
    .defaulted "value" (.optional .text) fun value o => { o with value }] {}

/-- Reads a call whose nested calls are read by `self`. -/
def Call.readerStep (self : Reader Call) : Reader Call :=
  .record "RuleFunction" [
    .required "func" .text fun func c => { c with func },
    .defaulted "args"
      (.list (.either "RuleArgument" (self.map .call) (Operand.reader.map .operand)))
      fun args c => { c with args }] default

def Call.reader : Reader Call := .fix Call.readerStep

/-- Reads a condition: a call, or a list of calls that all have to hold. -/
def Call.conditionReader : Reader Call :=
  .either "Conditions" Call.reader ((Reader.list Call.reader).map Call.all)

def Rule.reader : Reader Rule :=
  .record "Rule" [
    .required "conditions" Call.conditionReader fun condition r => { r with condition },
    .defaulted "fulfilled" (.list Call.reader) fun fulfilled r => { r with fulfilled },
    .defaulted "rejected" (.list Call.reader) fun rejected r => { r with rejected }] default

/-! ## Rule sets -/

/-- An ordered list of rules. -/
abbrev RuleSet := List Rule

namespace RuleSet

def toJson (rules : RuleSet) : Json := .list (rules.map Rule.toJson)

/-- The text of a rule set, indented or compact. -/
def text (pretty : Bool) (rules : RuleSet) : String := rules.toJson.write pretty

/-- The content of a rule file, which ends with a line break. -/
def fileText (pretty : Bool) (rules : RuleSet) : String := text pretty rules ++ "\n"

def reader : Reader RuleSet := .list Rule.reader

def ofText (source : String) : Except Json.Failure RuleSet := reader.fromText source

def ofJson (j : Json) : Except Json.Failure RuleSet := reader.fromJson j

end RuleSet

end FormRules
