-- SUMMARY: The effects of rules in the form of maps.
import FormRules.Layout.Basic

/-!
# Effects as maps

What a rule does to a form is said in the same terms as what a choice does: `show` and `hide` are
maps that set the visibility of their target, `allow` is a map that lists choices. Neighbouring
`allow` effects on one field make one map, so that the field keeps all of them. Effects that are
incomplete or unknown are left out.
-/

namespace FormRules

namespace Argument

/-- The operand that an argument is. -/
def operand? : Argument → Option Operand
  | operand o => some o
  | call _ => none

end Argument

namespace Call

/-- A key of the operand at an index of the arguments. -/
def operandKey? (c : Call) (index : Nat) (key : Operand → Option String) : Option String :=
  c.args[index]?.bind fun a => a.operand?.bind key

/-- The map that shows or hides the target of an effect: a field, otherwise a section. -/
def visibilityMap? (c : Call) (visible : Bool) : Option FieldMap :=
  match c.operandKey? 0 (·.field), c.operandKey? 0 (·.sectionId) with
  | some apiName, _ => some { apiName := some apiName, visible := some visible }
  | none, some id => some { id := some id, visible := some visible }
  | none, none => none

/-- The field and the value of an effect that needs both. -/
def allowed? (c : Call) : Option (String × String) :=
  match c.operandKey? 0 (·.field), c.operandKey? 1 (·.value) with
  | some field, some value => some (field, value)
  | _, _ => none

end Call

namespace FieldMap

/-- The map that leaves one value of a field on offer. -/
def allowing (field value : String) : FieldMap :=
  { apiName := some field, choices := some [{ actualValue := some value }] }

/-- Let a map that lists choices for a field list one more; no other map can. -/
def extend? (m : FieldMap) (field value : String) : Option FieldMap :=
  match m.choices with
  | some cs =>
    if m.apiName = some field then
      some { m with choices := some (cs ++ [{ actualValue := some value }]) }
    else none
  | none => none

end FieldMap

/-- Let the last map list one more value of a field, or add a map that lists it. -/
def allowLast (field value : String) : List FieldMap → List FieldMap
  | [] => [.allowing field value]
  | [m] =>
    match m.extend? field value with
    | some extended => [extended]
    | none => [m, .allowing field value]
  | m :: rest => m :: allowLast field value rest

/-- Add what an effect says to the maps of the effects before it. -/
def addEffect (maps : List FieldMap) (effect : Call) : List FieldMap :=
  if effect.func = "show" ∨ effect.func = "hide" then
    maps ++ (effect.visibilityMap? (effect.func = "show")).toList
  else if effect.func = "allow" then
    match effect.allowed? with
    | some (field, value) => allowLast field value maps
    | none => maps
  else maps

/-- The maps that a list of effects amounts to. -/
def effectMaps (effects : List Call) : List FieldMap := effects.foldl addEffect []

end FormRules
