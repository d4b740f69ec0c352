-- SUMMARY: The warnings that are logged while the values of a form are set.
import FormRules.Form.State
import FormRules.Warning

/-!
# Warnings of a form

Setting a value warns of the effects that amount to no map, rule by rule, and then of the maps that
have no target. A rule that cannot be evaluated comes before any of this, and nothing is logged.
-/

namespace FormRules

/-- What is logged about an effect that amounts to no map. -/
def Call.warning? (effect : Call) : Option Warning :=
  if effect.func = "show" ∨ effect.func = "hide" then
    match effect.visibilityMap? (effect.func = "show") with
    | some _ => none
    | none => some (.aimlessEffect effect.func)
  else if effect.func = "allow" then
    match effect.allowed? with
    | some _ => none
    | none => some .incompleteAllow
  else some (.unknownEffect effect.func)

namespace Form

/-- What is logged about a map that is not applied. -/
def mapWarning? (f : Form) (m : FieldMap) : Option Warning :=
  match f.target? m with
  | some _ => none
  | none => some (.unknownTarget m.id)

/-- What is logged when a field has got a value. -/
def warningsAfter (f : Form) (values : FormValues) (apiName value : String) : List Warning :=
  match f.evaluator.evaluateUpdated values [apiName] with
  | .error _ => []
  | .ok outcomes =>
    let maps := f.choiceMaps apiName value ++ outcomes.flatMap fun o => effectMaps o.effects
    (outcomes.flatMap fun o => o.effects.filterMap Call.warning?) ++ maps.filterMap f.mapWarning?

/-- What is logged while some fields get their initial values, up to the first error. -/
def setAllWarnings (f : Form) (initial : FormValues) (s : FormState) : List String → List Warning
  | [] => []
  | apiName :: rest =>
    match initial.get? apiName with
    | none => f.setAllWarnings initial s rest
    | some value =>
      f.warningsAfter (s.store apiName value).values apiName value ++
        match f.set s apiName value with
        | (s, none) => f.setAllWarnings initial s rest
        | (_, some _) => []

/-- What is logged while a form starts. -/
def startWarnings (f : Form) (provided : FormValues) : List Warning :=
  f.setAllWarnings (f.layout.initialValues provided) {} (firstOccurrences [] f.layout.declaredNames)

end Form

end FormRules
