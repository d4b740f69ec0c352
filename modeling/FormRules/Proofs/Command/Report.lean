-- SUMMARY: For which fields the form report shows the value that the rules were evaluated on.
import FormRules.Proofs.Command.Evaluation
import FormRules.Proofs.Form.Start

/-!
# The form report

Rules are evaluated on the provided values over the initial ones, while the form that is reported
starts with the initial values alone. A field that offers choices starts on the first of them
whatever is provided for it, and an empty text that is provided gives way to a default. The report
shows the values that the rules were evaluated on exactly where no such thing happens
(`reported_value_is_evaluated_value_iff`).
-/

namespace FormRules

/-- A field starts on a value that is provided for it: its first choice has the value, or it offers
no choices and the value is not empty, unless its default is empty too. -/
def Field.StartsOn (f : Field) (value : String) : Prop :=
  match f.choiceList with
  | first :: _ => first.actualValue = some value
  | [] => value ≠ "" ∨ f.defaultValue.bind Json.asFieldValue = some ""

theorem Field.initialValue_eq_provided_iff {f : Field} {apiName value : String}
    {provided : FormValues} (h : provided.get? apiName = some value) :
    f.initialValue apiName provided = some value ↔ f.StartsOn value := by
  unfold Field.initialValue Field.StartsOn
  cases f.choiceList with
  | cons first rest => rfl
  | nil =>
    simp only [h, String.isEmpty_iff]
    split
    · next hempty => simp [hempty]
    · next hempty => simp [hempty]

/-- A name starts with the value that the rules are evaluated on exactly if its last field starts on
what is provided for it, if anything is. -/
theorem Evaluation.initialValue_eq_value_iff {e : Evaluation} {apiName : String} {f : Field}
    (hfield : e.form.layout.field? apiName = some f) :
    (e.form.layout.initialValues e.provided).get? apiName = e.values.get? apiName
      ↔ ∀ value, e.provided.get? apiName = some value → f.StartsOn value := by
  rw [Evaluation.values, Table.get?_mergedWith, Layout.get?_initialValues, hfield,
    Option.bind_some]
  cases hprovided : e.provided.get? apiName with
  | none => simp
  | some value => simp [f.initialValue_eq_provided_iff hprovided]

/-- Let `evaluate` succeed with a form report. The report is on the state in which the form starts,
with the warnings of that start after those of extraction, and the outcomes are those of the rules on
the provided values over the initial ones. A declared name has the same value in both exactly if its
last field starts on the value that is provided for it, if one is. -/
theorem reported_value_is_evaluated_value_iff {o : EvaluateOptions} (hform : o.form = true)
    {read : FileReader} (h : ((Command.evaluate o).perform read).error = none) :
    ∃ e s, o.evaluation read = .ok e ∧ e.form.start e.provided = .ok s
      ∧ (Command.evaluate o).perform read = {
        log := o.warnings read ++ e.form.startWarnings e.provided
        printed := printedLines (e.lines ++ e.form.lines s) }
      ∧ o.outcomes e.form.evaluator e.values = .ok e.outcomes
      ∧ ∀ apiName f, e.form.layout.field? apiName = some f →
        (s.values.get? apiName = e.values.get? apiName
          ↔ ∀ value, e.provided.get? apiName = some value → f.StartsOn value) := by
  obtain ⟨error, _, hperform⟩ | ⟨e, s, he, hs, hperform⟩ := o.perform_cases read
  · simp [Command.perform, hperform] at h
  · obtain ⟨_, _, _, _, _, houtcomes⟩ := EvaluateOptions.evaluation_eq_ok.mp he
    refine ⟨e, s, he, hs, ?_, houtcomes, fun apiName f hfield => ?_⟩
    · simp [Command.perform, hperform, EvaluateOptions.report, EvaluateOptions.formWarnings, hform]
    · rw [Form.values_start hs]
      exact Evaluation.initialValue_eq_value_iff hfield

/-- A note that is provided: the form starts with it. -/
theorem reported_value_is_evaluated_value_iff_of_note :
    let note : Json := .object [("api_name", .text "note"), ("data_type", .text "text"),
      ("default_value", .text "none")]
    let layout : Json := .object [("sections", .list [.object [("fields", .list [note])]])]
    let values : Json := .object [("note", .text "urgent")]
    let d := Directory.ofList [("layout.json", layout.compact), ("values.json", values.compact)]
    let o : EvaluateOptions := {
      layout := { input := "layout.json" }, values := some "values.json", form := true }
    o.form = true ∧ ((Command.evaluate o).perform d.read).error = none
      ∧ ∃ e s, o.evaluation d.read = .ok e ∧ e.form.start e.provided = .ok s
        ∧ (Command.evaluate o).perform d.read = {
          log := o.warnings d.read ++ e.form.startWarnings e.provided
          printed := printedLines (e.lines ++ e.form.lines s) }
        ∧ o.outcomes e.form.evaluator e.values = .ok e.outcomes
        ∧ ∀ apiName f, e.form.layout.field? apiName = some f →
          (s.values.get? apiName = e.values.get? apiName
            ↔ ∀ value, e.provided.get? apiName = some value → f.StartsOn value) := by
  intro note layout values d o
  have hsucceeds : ((Command.evaluate o).perform d.read).error = none := by decide +kernel
  exact ⟨rfl, hsucceeds, reported_value_is_evaluated_value_iff rfl hsucceeds⟩

/-- A status that is provided, but is not the first choice: its rule is evaluated on it and is
fulfilled, while the form is reported with the first choice. -/
theorem reported_choice_differs_from_evaluated_choice :
    let closed : Json := .object [("actual_value", .text "Closed"), ("maps", .list [])]
    let status : Json := .object [("api_name", .text "status"), ("data_type", .text "pick_list"),
      ("pick_list_values", .list [.object [("actual_value", .text "Open")], closed])]
    let layout : Json := .object [("sections",
      .list [.object [("id", .text "main"), ("fields", .list [status])]])]
    let values : Json := .object [("status", .text "Closed")]
    let d := Directory.ofList [("layout.json", layout.compact), ("values.json", values.compact)]
    let o : EvaluateOptions := {
      layout := { input := "layout.json" }, values := some "values.json", form := true }
    (∃ e s, o.evaluation d.read = .ok e ∧ e.form.start e.provided = .ok s
      ∧ e.values.get? "status" = some "Closed" ∧ s.values.get? "status" = some "Open")
    ∧ (Command.evaluate o).perform d.read = { printed := printedLines [
        "Evaluated 1 of 1 rules",
        "  -> Rule 0 fulfilled: $status (was \"Closed\") == \"Closed\"",
        "Form state:", "  [shown] main", "      status = Open (shown)", "Form is valid"] } := by
  intro closed status layout values d o
  constructor
  · have hvalues : (o.evaluation d.read).toOption.bind (fun e =>
        (e.form.start e.provided).toOption.map fun s =>
          (e.values.get? "status", s.values.get? "status")) = some (some "Closed", some "Open") := by
      decide +kernel
    cases he : o.evaluation d.read with
    | error error => simp [he, Except.toOption] at hvalues
    | ok e =>
      cases hs : e.form.start e.provided with
      | error error => simp [he, hs, Except.toOption] at hvalues
      | ok s =>
        simp only [he, hs, Except.toOption, Option.bind_some, Option.map_some, Option.some.injEq,
          Prod.mk.injEq] at hvalues
        exact ⟨e, s, rfl, hs, hvalues⟩
  · decide +kernel

end FormRules
