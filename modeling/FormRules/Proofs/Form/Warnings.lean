-- SUMMARY: A form warns of just those effects and maps that change nothing.
import FormRules.Form.Warnings
import FormRules.Proofs.Form.Application
import FormRules.Proofs.Form.Grouping

/-!
# What a form warns of

A warning says that something is ignored. It comes for the effects that say nothing and for the maps
that have no target, and these are the ones that make no difference to a form. An edit that warns of
nothing ignores nothing (`Form.warningsAfter_eq_nil_iff`).
-/

namespace FormRules

/-- An effect is warned of exactly if it cannot be used. -/
theorem Call.warning?_eq_none_iff (effect : Call) :
    effect.warning? = none ↔ effect.statement?.isSome = true := by
  unfold warning? statement?
  rw [effect.visibilityMap?_eq, effect.allowed?_eq]
  by_cases hshow : effect.func = "show"
  · cases effect.target? <;> simp [hshow]
  by_cases hhide : effect.func = "hide"
  · cases effect.target? <;> simp [hhide]
  by_cases hallow : effect.func = "allow"
  · cases effect.offer? <;> simp [hallow]
  · simp [hshow, hhide, hallow]

/-- Without the effects that are warned of, the maps of effects are the same. -/
theorem effectMaps_filter_warning? (effects : List Call) :
    effectMaps (effects.filter (·.warning?.isNone)) = effectMaps effects := by
  have hsaid : (effects.filter (·.warning?.isNone)).filterMap Call.statement?
      = effects.filterMap Call.statement? := by
    rw [List.filterMap_filter]
    congr 1
    funext effect
    have hiff := effect.warning?_eq_none_iff
    cases hstatement : effect.statement? <;> simp [hstatement] at hiff ⊢
    exact hiff
  rw [effectMaps_eq, effectMaps_eq, hsaid]

namespace Form

variable {f : Form}

/-- A map is warned of exactly if it has no target. -/
theorem mapWarning?_eq_none_iff {m : FieldMap} :
    f.mapWarning? m = none ↔ (f.target? m).isSome = true := by
  unfold mapWarning?
  cases f.target? m <;> simp

/-- Without the maps that are warned of, the form comes into the same state. -/
theorem applyMaps_filter_mapWarning? (s : FormState) (maps : List FieldMap) :
    f.applyMaps s (maps.filter fun m => (f.mapWarning? m).isNone) = f.applyMaps s maps := by
  induction maps generalizing s with
  | nil => rfl
  | cons m rest ih =>
    rw [List.filter_cons]
    cases hwarning : f.mapWarning? m with
    | none => simp [ih]
    | some w =>
      have htarget : f.target? m = none := by
        have hnot := mt (mapWarning?_eq_none_iff (f := f) (m := m)).mpr (by simp [hwarning])
        simpa using hnot
      simp [ih, applyMap_of_target?_eq_none htarget]

/-- An edit whose rules can be evaluated warns of nothing exactly if all their effects can be used and
every map, of the choice or of the effects, has a target. -/
theorem warningsAfter_eq_nil_iff {values : FormValues} {apiName value : String}
    {outcomes : List Outcome} (h : f.evaluator.evaluateUpdated values [apiName] = .ok outcomes) :
    f.warningsAfter values apiName value = [] ↔
      (∀ o ∈ outcomes, ∀ effect ∈ o.effects, effect.statement?.isSome = true)
      ∧ ∀ m ∈ f.choiceMaps apiName value ++ outcomes.flatMap fun o => effectMaps o.effects,
        (f.target? m).isSome = true := by
  simp only [warningsAfter, h, List.append_eq_nil_iff, List.flatMap_eq_nil_iff,
    List.filterMap_eq_nil_iff, Call.warning?_eq_none_iff, mapWarning?_eq_none_iff]

end Form

end FormRules
