-- SUMMARY: For which values an extracted rule fires.
import FormRules.Proofs.Evaluator.Verdict
import FormRules.Proofs.Extraction.Origin

/-!
# Firing of extracted rules

An extracted rule compares a field with a text. Empty names and empty texts do not reach that
comparison as they are: an operand with an empty key denotes nothing. A rule with a name and a text
fires exactly when the field has the text; with an empty text it fires when the field has no value
at all, and with an empty name it compares its text with nothing (`Call.holds_is_iff`).
-/

namespace FormRules

variable {values : FormValues}

/-! ## Values of fields -/

theorem FormValues.valueOf_eq_text {apiName s : String} :
    values.valueOf apiName = .text s ↔ values.get? apiName = some s := by
  cases h : values.get? apiName <;> simp [FormValues.valueOf, h]

theorem FormValues.valueOf_eq_null {apiName : String} :
    values.valueOf apiName = .null ↔ values.get? apiName = none := by
  cases h : values.get? apiName <;> simp [FormValues.valueOf, h]

/-! ## The condition of an extracted rule -/

theorem Operand.denoted_ofField (apiName : String) :
    (Operand.ofField apiName).denoted values
      = if apiName = "" then .null else values.valueOf apiName := by
  by_cases h : apiName = "" <;> simp [Operand.denoted, Operand.ofField, h]

theorem Operand.denoted_ofValue (s : String) :
    (Operand.ofValue s).denoted values = if s = "" then .null else .text s := by
  by_cases h : s = "" <;> simp [Operand.denoted, Operand.ofValue, h]

/-- When a field, by its name, is found to have a text. -/
theorem Call.holds_is_iff {vocabulary : Vocabulary} (hb : vocabulary "is" = some .is)
    (values : FormValues) (apiName s : String) :
    (Call.is apiName s).holds vocabulary values = true ↔
      if apiName = "" then s = ""
      else if s = "" then values.get? apiName = none
      else values.get? apiName = some s := by
  rw [Call.is, Call.holds_is hb, decide_eq_true_iff, Operand.denoted_ofField,
    Operand.denoted_ofValue]
  by_cases hname : apiName = "" <;> by_cases hs : s = ""
  · simp [hname, hs]
  · simp [hname, hs]
  · simp [hname, hs, FormValues.valueOf_eq_null]
  · simp [hname, hs, FormValues.valueOf_eq_text]

/-! ## Extracted rules -/

/-- An extracted rule comes from a value with maps that a field offers under its name. It is
compiled and, for any values, evaluated. It fires exactly when the field has the value if neither is
empty; when the field has no value if the value is empty; and, if the name is empty, when the value
is empty too. -/
theorem extracted_rule_fires {x : Extractor} {l : Layout} {rules : List Rule}
    (h : x.extract l = .ok rules) {r : Rule} (hr : r ∈ rules) :
    ∃ apiName actualValue, x.Mapped l apiName actualValue
      ∧ r.condition = .is apiName actualValue
      ∧ ∃ ev, Evaluator.ofRules .default [r] = .ok ev
      ∧ ∀ values, ∃ outcome, ev.evaluate values = .ok [outcome]
        ∧ (apiName ≠ "" → actualValue ≠ "" →
          (outcome.fulfilled = true ↔ values.get? apiName = some actualValue))
        ∧ (apiName ≠ "" → actualValue = "" →
          (outcome.fulfilled = true ↔ values.get? apiName = none))
        ∧ (apiName = "" → (outcome.fulfilled = true ↔ actualValue = "")) := by
  obtain ⟨apiName, actualValue, hmapped, hcond⟩ := Extractor.mapped_of_mem_extract h hr
  have his : Builtin.ofName? "is" = some .is := rfl
  have hcompile : ∃ e, r.condition.compile .default = .ok e :=
    ⟨_, by rw [hcond]; exact Call.compile_is Registry.default_speaks his _ _⟩
  obtain ⟨ev, hev⟩ : ∃ ev, Evaluator.ofRules .default [r] = .ok ev :=
    Evaluator.ofRules_succeeds (by simpa using hcompile)
  refine ⟨apiName, actualValue, hmapped, hcond, ev, hev, fun values => ?_⟩
  obtain ⟨outcomes, ho, hv⟩ := Evaluator.evaluate_of_ofRules Registry.default_speaks hev values
  obtain ⟨outcome, rfl, hverdict⟩ : ∃ outcome, outcomes = [outcome]
      ∧ outcome.verdict = r.verdict Builtin.ofName? values 0 := by
    simpa [List.map_eq_singleton_iff] using hv
  have hfulfilled : outcome.fulfilled = r.condition.holds Builtin.ofName? values :=
    congrArg Verdict.fulfilled hverdict
  have hiff := Call.holds_is_iff his values apiName actualValue
  rw [← hcond, ← hfulfilled] at hiff
  refine ⟨outcome, ho, fun hn hs => ?_, fun hn hs => ?_, fun hn => ?_⟩
  · simpa [hn, hs] using hiff
  · simpa [hn, hs] using hiff
  · simpa [hn] using hiff

/-- The only rule of a layout in which one choice of two has maps. -/
theorem extracted_rule_fires_for_choice :
    let layout : Layout := {
      sections := [{
        fields := [{ apiName := some "status", dataType := "pick_list"
                     choices := some [{ actualValue := some "Open", maps := some [] },
                       { actualValue := some "Closed" }] }] }] }
    let rule : Rule := { condition := .is "status" "Open" }
    Extractor.extract {} layout = .ok [rule] ∧ rule ∈ [rule]
      ∧ ∃ ev, Evaluator.ofRules .default [rule] = .ok ev
      ∧ ∀ values, ∃ outcome, ev.evaluate values = .ok [outcome]
        ∧ (outcome.fulfilled = true ↔ values.get? "status" = some "Open") := by
  intro layout rule
  have hextract : Extractor.extract {} layout = .ok [rule] := rfl
  have hmem : rule ∈ [rule] := List.mem_singleton_self rule
  obtain ⟨apiName, actualValue, _, hcond, ev, hev, hfires⟩ := extracted_rule_fires hextract hmem
  obtain ⟨rfl, rfl⟩ : "status" = apiName ∧ "Open" = actualValue := by
    simpa [rule, Call.is, Operand.ofField, Operand.ofValue] using hcond
  refine ⟨hextract, hmem, ev, hev, fun values => ?_⟩
  obtain ⟨outcome, ho, hiff, _⟩ := hfires values
  exact ⟨outcome, ho, hiff (by decide) (by decide)⟩

/-- The rule of an empty value does not fire when its field has that value. -/
theorem extracted_rule_misses_empty_value :
    let layout : Layout := {
      sections := [{
        fields := [{ apiName := some "status", dataType := "pick_list"
                     choices := some [{ actualValue := some "", maps := some [] }] }] }] }
    let rule : Rule := { condition := .is "status" "" }
    let values := Table.ofList [("status", "")]
    Extractor.extract {} layout = .ok [rule]
      ∧ values.get? "status" = some ""
      ∧ ∃ ev, Evaluator.ofRules .default [rule] = .ok ev
      ∧ (ev.evaluate values).map (List.map Outcome.fulfilled) = .ok [false] := by
  intro layout rule values
  exact ⟨rfl, rfl, _, rfl, rfl⟩

end FormRules
