-- SUMMARY: What a condition says of form values, and that evaluation comes to exactly that.
import FormRules.Condition.Evaluation
import FormRules.Proofs.Success

/-!
# Truth of conditions

`Expr.value` is what an expression denotes for given values, read off its structure: it knows no
order, no trace and no error. A condition (`Expr.IsCondition`) joins equalities of leaves and truth
values to any depth. Evaluation goes from left to right and leaves out what is not needed; on a
condition it succeeds, and it comes to what the condition denotes (`Expr.IsCondition.evaluate`).
-/

namespace FormRules

namespace Expr

/-! ## Conditions -/

/-- What an equality compares: a given value or a field. -/
inductive IsLeaf : Expr → Prop where
  | literal (v : Value) : IsLeaf (.literal v)
  | field (apiName : String) : IsLeaf (.field apiName)

/-- The expressions that have a truth value whatever a form holds. -/
inductive IsCondition : Expr → Prop where
  | equal {l r : Expr} : l.IsLeaf → r.IsLeaf → IsCondition (.equal l r)
  | and {l r : Expr} : IsCondition l → IsCondition r → IsCondition (.and l r)
  | or {l r : Expr} : IsCondition l → IsCondition r → IsCondition (.or l r)
  | constant (b : Bool) : IsCondition (.literal (.bool b))

/-! ## Denotation -/

/-- What an expression denotes. A side of a conjunction or disjunction that is no truth value counts
as false. -/
def value (values : FormValues) : Expr → Value
  | equal l r => .bool (l.value values = r.value values)
  | and l r => .bool (l.value values = .bool true ∧ r.value values = .bool true)
  | or l r => .bool (l.value values = .bool true ∨ r.value values = .bool true)
  | literal v => v
  | field apiName => values.valueOf apiName

/-- Whether an expression denotes the truth. -/
def holds (values : FormValues) (e : Expr) : Bool := e.value values = .bool true

variable {values : FormValues}

@[simp] theorem holds_equal (l r : Expr) :
    (equal l r).holds values = decide (l.value values = r.value values) := by
  simp [holds, value]

@[simp] theorem holds_and (l r : Expr) :
    (and l r).holds values = (l.holds values && r.holds values) := by
  simp [holds, value]

@[simp] theorem holds_or (l r : Expr) :
    (or l r).holds values = (l.holds values || r.holds values) := by
  simp [holds, value]

@[simp] theorem holds_literal_bool (b : Bool) : (literal (.bool b)).holds values = b := by
  simp [holds, value]

/-! ## Evaluation comes to the denotation -/

theorem IsLeaf.evaluate {e : Expr} (h : e.IsLeaf) (values : FormValues) :
    ∃ t, e.evaluate values = .ok t ∧ t.outcome = e.value values := by
  cases h with
  | literal v => exact ⟨_, rfl, rfl⟩
  | field apiName => exact ⟨_, rfl, rfl⟩

/-- Sides that have truth values are joined as truth values are. Whether the right side is left out
makes no difference to the outcome. -/
theorem evaluateSides_ok (operation : Operation) (decisive : Bool) {bl br : Bool} {tl tr : Trace}
    {left right : Except EvaluationError Trace} (hl : left = .ok tl) (hlo : tl.outcome = .bool bl)
    (hr : right = .ok tr) (hro : tr.outcome = .bool br) :
    ∃ t, evaluateSides operation decisive left right = .ok t
      ∧ t.outcome = .bool (if bl = decisive then decisive else br) := by
  subst hl hr
  by_cases hb : bl = decisive
  · refine ⟨.binary operation.shown tl .skipped (.bool decisive), ?_, ?_⟩
    · simp [evaluateSides, hlo, hb]
    · simp [Trace.outcome, hb]
  · refine ⟨.binary operation.shown tl tr (.bool br), ?_, ?_⟩
    · simp [evaluateSides, hlo, hro, hb]
    · simp [Trace.outcome, hb]

/-- A condition is evaluated without an error, to its truth value. -/
theorem IsCondition.evaluate {e : Expr} (h : e.IsCondition) (values : FormValues) :
    ∃ t, e.evaluate values = .ok t ∧ t.outcome = .bool (e.holds values) := by
  induction h with
  | @equal l r hl hr =>
    obtain ⟨tl, htl, hlo⟩ := hl.evaluate values
    obtain ⟨tr, htr, hro⟩ := hr.evaluate values
    refine ⟨.binary "==" tl tr (.bool (tl.outcome = tr.outcome)), ?_, ?_⟩
    · simp [Expr.evaluate, htl, htr]
    · rw [holds_equal, ← hlo, ← hro]
      rfl
  | @and l r _ _ ihl ihr =>
    obtain ⟨tl, htl, hlo⟩ := ihl
    obtain ⟨tr, htr, hro⟩ := ihr
    obtain ⟨t, ht, hto⟩ := evaluateSides_ok .and false htl hlo htr hro
    refine ⟨t, ht, ?_⟩
    rw [hto, holds_and]
    cases l.holds values <;> rfl
  | @or l r _ _ ihl ihr =>
    obtain ⟨tl, htl, hlo⟩ := ihl
    obtain ⟨tr, htr, hro⟩ := ihr
    obtain ⟨t, ht, hto⟩ := evaluateSides_ok .or true htl hlo htr hro
    refine ⟨t, ht, ?_⟩
    rw [hto, holds_or]
    cases l.holds values <;> rfl
  | constant b => exact ⟨_, rfl, by simp [Trace.outcome]⟩

end Expr

end FormRules
