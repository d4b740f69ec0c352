-- SUMMARY: Evaluation reads the required fields only, and what touches a condition is one of them.
import FormRules.Proofs.Condition.Dependence
import FormRules.Proofs.Evaluator.Selection

/-!
# Required fields

The fields that an expression requires are all that its evaluation can read. Which of them it does
read depends on the values, since sides are left out; values that agree on all of them give the same
trace, and so the same outcome and reason, or the same error. An expression without a literal `true`
in it is touched only by updates of fields that it requires (`evaluation_reads_required_fields`).
-/

namespace FormRules

/-! ## Evaluation under values that agree -/

section

variable {values others : FormValues}

theorem CompiledRule.evaluate_congr {r : CompiledRule}
    (h : ∀ apiName ∈ r.condition.fields, values.get? apiName = others.get? apiName) :
    r.evaluate values = r.evaluate others := by
  rw [CompiledRule.evaluate, CompiledRule.evaluate, Expr.evaluate_congr h]

theorem Evaluator.evaluateAll_congr {rules : List CompiledRule}
    (h : ∀ r ∈ rules, ∀ apiName ∈ r.condition.fields, values.get? apiName = others.get? apiName) :
    evaluateAll values rules = evaluateAll others rules := by
  induction rules with
  | nil => rfl
  | cons r rest ih =>
    obtain ⟨hr, hrest⟩ := List.forall_mem_cons.mp h
    rw [evaluateAll, evaluateAll, CompiledRule.evaluate_congr hr, ih hrest]

end

/-! ## Updates of required fields -/

namespace Expr

variable {updated : List String}

theorem exists_field_of_isFieldAmong {e : Expr} (h : e.isFieldAmong updated = true) :
    ∃ apiName ∈ e.fields, apiName ∈ updated := by
  obtain ⟨apiName, hupdated, rfl⟩ := isFieldAmong_iff.mp h
  exact ⟨apiName, by simp [fields], hupdated⟩

/-- What touches an expression is a field that it reads, if no literal `true` stands in it. -/
theorem exists_field_of_isTouchedBy {e : Expr} (hliteral : ¬ (literal (.bool true)).OccursIn e)
    (h : e.isTouchedBy updated = true) : ∃ apiName ∈ e.fields, apiName ∈ updated := by
  induction e with
  | equal l r =>
    simp only [isTouchedBy, Bool.or_eq_true] at h
    apply exists_mem_append.mpr
    exact h.imp exists_field_of_isFieldAmong exists_field_of_isFieldAmong
  | and l r ihl _ =>
    simp only [isTouchedBy, Bool.and_eq_true] at h
    apply exists_mem_append.mpr
    exact .inl (ihl (fun hocc => hliteral (.andLeft hocc)) h.1)
  | or l r ihl ihr =>
    simp only [isTouchedBy, Bool.or_eq_true] at h
    apply exists_mem_append.mpr
    exact h.imp (ihl fun hocc => hliteral (.orLeft hocc)) (ihr fun hocc => hliteral (.orRight hocc))
  | literal v =>
    cases v with
    | bool b =>
      have hb : b = true := h
      subst hb
      exact absurd .here hliteral
    | text | null => cases h
  | field apiName => cases h

end Expr

/-- Values that agree on the fields that an expression requires give it the same trace, and thus the
same outcome and the same reason, or the same error; so they do for every rule with the expression as
its condition. If there is no literal `true` in the expression, every update that touches it gives a
value to a field that it requires. -/
theorem evaluation_reads_required_fields (e : Expr) :
    (∀ values others : FormValues,
      (∀ apiName ∈ e.requiredFields, values.get? apiName = others.get? apiName) →
        e.evaluate values = e.evaluate others
        ∧ ∀ r : CompiledRule, r.condition = e → r.evaluate values = r.evaluate others)
    ∧ ∀ updated, ¬ (Expr.literal (.bool true)).OccursIn e → e.isTouchedBy updated = true →
        ∃ apiName ∈ e.requiredFields, apiName ∈ updated := by
  simp only [Expr.mem_requiredFields]
  refine ⟨fun values others hagree => ⟨Expr.evaluate_congr hagree, ?_⟩, fun updated hliteral h => ?_⟩
  · intro r hr
    subst hr
    exact CompiledRule.evaluate_congr hagree
  · exact Expr.exists_field_of_isTouchedBy hliteral h

/-- Evaluation reads `b` since `a` has a value, and fails, whatever the value of `c` is. -/
theorem evaluation_reads_required_fields_of_ill_typed_side :
    let e : Expr := .or (.equal (.field "a") (.literal .null)) (.field "b")
    let values : FormValues := Table.ofList [("a", "1"), ("b", "2")]
    let others := values.insert "c" "3"
    e.evaluate others = .error ⟨.or, .text "2"⟩
      ∧ (∀ apiName ∈ e.requiredFields, values.get? apiName = others.get? apiName)
      ∧ e.evaluate values = e.evaluate others
      ∧ ¬ (Expr.literal (.bool true)).OccursIn e ∧ e.isTouchedBy ["c", "a"] = true
      ∧ ∃ apiName ∈ e.requiredFields, apiName ∈ ["c", "a"] := by
  intro e values others
  have hagree : ∀ apiName ∈ e.requiredFields, values.get? apiName = others.get? apiName := by
    intro apiName hmem
    have hname : apiName = "a" ∨ apiName = "b" := by
      simpa [e, Expr.fields] using Expr.mem_requiredFields.mp hmem
    have hne : apiName ≠ "c" := by rcases hname with rfl | rfl <;> decide
    exact (values.get?_insert_of_ne hne "3").symm
  have hliteral : ¬ (Expr.literal (.bool true)).OccursIn e := by
    intro hocc
    simp only [e] at hocc
    cases hocc with
    | orLeft hocc =>
      cases hocc with
      | equalLeft hocc => cases hocc
      | equalRight hocc => cases hocc
    | orRight hocc => cases hocc
  obtain ⟨hreads, htouches⟩ := evaluation_reads_required_fields e
  exact ⟨rfl, hagree, (hreads values others hagree).1, hliteral, rfl, htouches _ hliteral rfl⟩

end FormRules
