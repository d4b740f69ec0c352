-- SUMMARY: Runs of a form, and that rules made of built-in functions never fail in one.
import FormRules.Form.State
import FormRules.Proofs.Evaluator.Verdict

/-!
# Runs of a form

A form starts and then takes edits, each of which gives a field a value; an edit that fails does not
end the run. Only evaluation can make an edit fail, so a form whose evaluator is well typed starts
and takes every edit (`Form.run_succeeds`). Rules compiled from built-in functions, under any names,
make such an evaluator.
-/

namespace FormRules

namespace Form

/-- Make edits one after the other: the state after the last of them, and the errors of those that
failed. -/
def run (f : Form) (s : FormState) : List (String × String) → FormState × List EvaluationError
  | [] => (s, [])
  | (apiName, value) :: rest =>
    let (s, failure) := f.set s apiName value
    let (s, failures) := f.run s rest
    (s, failure.toList ++ failures)

variable {f : Form}

/-- The maps that follow when a field has got a value and every rule can be evaluated: those of the
choice, then those of the verdict on each rule that the change touches. -/
def followingMaps (f : Form) (values : FormValues) (apiName value : String) : List FieldMap :=
  f.choiceMaps apiName value
    ++ (f.evaluator.rules.filter (·.condition.isTouchedBy [apiName])).flatMap fun r =>
      effectMaps (r.verdict values).effects

theorem mapsAfter_eq (h : f.evaluator.WellTyped) (values : FormValues) (apiName value : String) :
    f.mapsAfter values apiName value = .ok (f.followingMaps values apiName value) := by
  obtain ⟨outcomes, ho, hv⟩ := h.evaluateUpdated values [apiName]
  -- the maps of an outcome are those of its verdict
  have hmaps : outcomes.flatMap (fun o => effectMaps o.effects)
      = (outcomes.map Outcome.verdict).flatMap fun v => effectMaps v.effects := by
    rw [List.flatMap_map]
    rfl
  rw [mapsAfter, ho, map_ok, hmaps, hv, List.flatMap_map, followingMaps]

/-- One edit does not fail: it stores the value and applies the maps that follow. -/
theorem set_eq (h : f.evaluator.WellTyped) (s : FormState) (apiName value : String) :
    f.set s apiName value
      = (f.applyMaps (s.store apiName value)
          (f.followingMaps (s.values.insert apiName value) apiName value), none) := by
  have hmaps := mapsAfter_eq h (s.values.insert apiName value) apiName value
  simp [Form.set, FormState.store, hmaps]

/-- No edit of a run fails. -/
theorem run_succeeds (h : f.evaluator.WellTyped) (s : FormState) (edits : List (String × String)) :
    (f.run s edits).2 = [] := by
  induction edits generalizing s with
  | nil => rfl
  | cons edit rest ih =>
    obtain ⟨apiName, value⟩ := edit
    simp [run, set_eq h s apiName value, ih]

theorem setAll_succeeds (h : f.evaluator.WellTyped) (initial : FormValues) (s : FormState)
    (names : List String) : ∃ s', f.setAll initial s names = .ok s' := by
  induction names generalizing s with
  | nil => exact ⟨s, rfl⟩
  | cons apiName rest ih =>
    cases hi : initial.get? apiName with
    | none =>
      obtain ⟨s', hs'⟩ := ih s
      exact ⟨s', by simpa [setAll, hi] using hs'⟩
    | some value =>
      obtain ⟨s', hs'⟩ := ih (f.set s apiName value).1
      exact ⟨s', by simpa [setAll, hi, set_eq h s apiName value] using hs'⟩

/-- A form starts. -/
theorem start_succeeds (h : f.evaluator.WellTyped) (provided : FormValues) :
    ∃ s, f.start provided = .ok s :=
  setAll_succeeds h _ _ _

end Form

/-- Let the default registry get any aliases, and let it compile some rules. Then the rules can be
evaluated for all values, after all updates, and in a form on any layout: it starts, and no edit of
a run fails. -/
theorem builtin_rules_never_fail (aliases : List (String × String)) {rules : List Rule}
    {ev : Evaluator} (h : Evaluator.ofRules (Registry.default.withAliases aliases) rules = .ok ev) :
    (∀ values, ∃ outcomes, ev.evaluate values = .ok outcomes)
    ∧ (∀ values updated, ∃ outcomes, ev.evaluateUpdated values updated = .ok outcomes)
    ∧ ∀ layout provided, ∃ s, Form.start ⟨layout, ev⟩ provided = .ok s
      ∧ ∀ edits, (Form.run ⟨layout, ev⟩ s edits).2 = [] := by
  obtain ⟨vocabulary, hs⟩ := Registry.default_speaks.withAliases aliases
  have hwell : ev.WellTyped := Evaluator.wellTyped_of_ofRules hs h
  refine ⟨fun values => ?_, fun values updated => ?_, fun layout provided => ?_⟩
  · obtain ⟨outcomes, ho, _⟩ := hwell.evaluate values
    exact ⟨outcomes, ho⟩
  · obtain ⟨outcomes, ho, _⟩ := hwell.evaluateUpdated values updated
    exact ⟨outcomes, ho⟩
  · obtain ⟨s, hstart⟩ := Form.start_succeeds (f := ⟨layout, ev⟩) hwell provided
    exact ⟨s, hstart, fun edits => Form.run_succeeds hwell s edits⟩

/-- A rule in other words than the built-in ones, on a form that starts with one value. -/
theorem builtin_rules_never_fail_aliased :
    let aliases := [("all", "and"), ("equals", "is"), ("all", "unknown")]
    let rule : Rule := {
      condition := ⟨"all", [.call ⟨"equals", [.operand (.ofField "a"), .operand (.ofField "b")]⟩]⟩
      fulfilled := [.setVisible false (.ofField "b")] }
    let layout : Layout := {
      sections := [{
        fields := [{ apiName := some "a", dataType := "text" },
          { apiName := some "b", dataType := "text" }] }] }
    ∃ ev, Evaluator.ofRules (Registry.default.withAliases aliases) [rule] = .ok ev
      ∧ ∃ s, Form.start ⟨layout, ev⟩ (Table.ofList [("b", "1")]) = .ok s
      ∧ (Form.run ⟨layout, ev⟩ s [("a", "1"), ("b", "1"), ("a", "")]).2 = [] := by
  intro aliases rule layout
  obtain ⟨ev, hev⟩ : ∃ ev,
      Evaluator.ofRules (Registry.default.withAliases aliases) [rule] = .ok ev := ⟨_, rfl⟩
  obtain ⟨_, _, hform⟩ := builtin_rules_never_fail aliases hev
  obtain ⟨s, hstart, hrun⟩ := hform layout (Table.ofList [("b", "1")])
  exact ⟨ev, hev, s, hstart, hrun _⟩

end FormRules
