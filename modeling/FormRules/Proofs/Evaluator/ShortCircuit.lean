-- SUMMARY: Evaluation that leaves nothing out comes to the same verdicts, where it comes to one at all.
import FormRules.Proofs.Evaluator.Verdict

/-!
# Short circuits and verdicts

`Expr.evaluateStrictly` evaluates both sides of every operator, from left to right, and wants a truth
value of each. Expressions may be ill-typed at any depth, so it can fail on a side that evaluation
leaves out. Where it comes to a value, evaluation comes to the same one, since a side that is left out
cannot alter the outcome; hence where evaluation fails, it fails too
(`short_circuits_keep_verdicts`).
-/

namespace FormRules

/-! ## Strict evaluation -/

/-- The truth value of an operator whose sides have truth values. -/
def Connective.truth : Connective → Bool → Bool → Bool
  | and => Bool.and
  | or => Bool.or

theorem Connective.truth_eq (c : Connective) (a b : Bool) :
    c.truth a b = if a = c.decisive then c.decisive else b := by
  cases c <;> cases a <;> rfl

namespace Expr

/-- Evaluate both sides of an operator to truth values, the left one first. -/
def bothSides (c : Connective) (left right : Except EvaluationError Value) :
    Except EvaluationError Value := do
  let l ← left
  let a ← l.asBool c.operation
  let r ← right
  let b ← r.asBool c.operation
  return .bool (c.truth a b)

/-- Evaluate an expression and leave nothing out. -/
def evaluateStrictly (values : FormValues) : Expr → Except EvaluationError Value
  | equal l r => do
    let left ← l.evaluateStrictly values
    let right ← r.evaluateStrictly values
    return .bool (left = right)
  | and l r => bothSides .and (l.evaluateStrictly values) (r.evaluateStrictly values)
  | or l r => bothSides .or (l.evaluateStrictly values) (r.evaluateStrictly values)
  | literal v => .ok v
  | field apiName => .ok (values.valueOf apiName)

variable {values : FormValues}

theorem bothSides_eq_ok {c : Connective} {left right : Except EvaluationError Value} {v : Value} :
    bothSides c left right = .ok v
      ↔ ∃ a b, left = .ok (.bool a) ∧ right = .ok (.bool b) ∧ v = .bool (c.truth a b) := by
  simp only [bothSides, bind_eq_ok, asBool_eq_ok, pure_eq_ok, Except.ok.injEq]
  constructor
  · intro ⟨l, hl, a, hla, r, hr, b, hrb, hv⟩
    subst hla hrb
    exact ⟨a, b, hl, hr, hv.symm⟩
  · intro ⟨a, b, hl, hr, hv⟩
    exact ⟨_, hl, a, rfl, _, hr, b, rfl, hv.symm⟩

/-- If the sides of an operator are evaluated to what strict evaluation comes to, so is the operator,
be it with or without its right side. -/
theorem evaluate_join_of_bothSides (c : Connective) {l r : Expr} {v : Value}
    (ihl : ∀ v, l.evaluateStrictly values = .ok v → ∃ t, l.evaluate values = .ok t ∧ t.outcome = v)
    (ihr : ∀ v, r.evaluateStrictly values = .ok v → ∃ t, r.evaluate values = .ok t ∧ t.outcome = v)
    (h : bothSides c (l.evaluateStrictly values) (r.evaluateStrictly values) = .ok v) :
    ∃ t, (c.join l r).evaluate values = .ok t ∧ t.outcome = v := by
  obtain ⟨a, b, hl, hr, rfl⟩ := bothSides_eq_ok.mp h
  obtain ⟨tl, htl, hlo⟩ := ihl _ hl
  obtain ⟨tr, htr, hro⟩ := ihr _ hr
  obtain ⟨t, ht, hto⟩ := evaluateSides_ok c.operation c.decisive htl hlo htr hro
  refine ⟨t, ?_, ?_⟩
  · rw [evaluate_join, ht]
  · rw [hto, c.truth_eq]

/-- What strict evaluation comes to is the outcome of evaluation. -/
theorem evaluate_of_evaluateStrictly {e : Expr} {v : Value} (h : e.evaluateStrictly values = .ok v) :
    ∃ t, e.evaluate values = .ok t ∧ t.outcome = v := by
  induction e generalizing v with
  | literal | field =>
    cases h
    exact ⟨_, rfl, rfl⟩
  | equal l r ihl ihr =>
    simp only [evaluateStrictly, bind_eq_ok] at h
    obtain ⟨vl, hl, vr, hr, h⟩ := h
    cases h
    obtain ⟨tl, htl, rfl⟩ := ihl hl
    obtain ⟨tr, htr, rfl⟩ := ihr hr
    refine ⟨.binary "==" tl tr (.bool (tl.outcome = tr.outcome)), ?_, rfl⟩
    simp [evaluate, htl, htr]
  | and l r ihl ihr => exact evaluate_join_of_bothSides .and (fun _ => ihl) (fun _ => ihr) h
  | or l r ihl ihr => exact evaluate_join_of_bothSides .or (fun _ => ihl) (fun _ => ihr) h

end Expr

/-! ## Verdicts -/

/-- The verdict on a rule whose condition is evaluated strictly. -/
def CompiledRule.verdictStrictly (values : FormValues) (r : CompiledRule) :
    Except EvaluationError Verdict := do
  let v ← r.condition.evaluateStrictly values
  let b ← v.asBool .condition
  return .ofTruth r.index b r.fulfilled r.rejected

theorem CompiledRule.evaluate_of_verdictStrictly {values : FormValues} {r : CompiledRule}
    {verdict : Verdict} (h : r.verdictStrictly values = .ok verdict) :
    (r.evaluate values).map Outcome.verdict = .ok verdict := by
  simp only [verdictStrictly, bind_eq_ok, Expr.asBool_eq_ok] at h
  obtain ⟨v, hv, b, rfl, h⟩ := h
  cases h
  obtain ⟨t, ht, hto⟩ := Expr.evaluate_of_evaluateStrictly hv
  exact map_eq_ok.mpr ⟨_, evaluate_eq_ok_iff.mpr ⟨t, b, ht, hto, rfl⟩, rfl⟩

/-- Let the condition of a rule be any expression, ill-typed ones included. If strict evaluation of it
comes to a value, evaluation comes to the same outcome; if evaluation fails, so does strict
evaluation. The same is true of the verdict on the rule, for which the condition has to come to a
truth value. -/
theorem short_circuits_keep_verdicts (r : CompiledRule) (values : FormValues) :
    (∀ v, r.condition.evaluateStrictly values = .ok v →
        (r.condition.evaluate values).map Trace.outcome = .ok v)
    ∧ (∀ err, r.condition.evaluate values = .error err →
        ∃ err', r.condition.evaluateStrictly values = .error err')
    ∧ (∀ verdict, r.verdictStrictly values = .ok verdict →
        (r.evaluate values).map Outcome.verdict = .ok verdict)
    ∧ ∀ err, r.evaluate values = .error err → ∃ err', r.verdictStrictly values = .error err' := by
  have hvalue : ∀ v, r.condition.evaluateStrictly values = .ok v →
      ∃ t, r.condition.evaluate values = .ok t ∧ t.outcome = v :=
    fun _ => Expr.evaluate_of_evaluateStrictly
  have hverdict : ∀ verdict, r.verdictStrictly values = .ok verdict →
      ∃ o, r.evaluate values = .ok o ∧ o.verdict = verdict :=
    fun _ h => map_eq_ok.mp (CompiledRule.evaluate_of_verdictStrictly h)
  refine ⟨fun v h => map_eq_ok.mpr (hvalue v h), fun err herr => ?_,
    fun verdict h => map_eq_ok.mpr (hverdict verdict h), fun err herr => ?_⟩
  -- failures carry over in the other direction than successes, though not with the same error
  · exact exists_error_of_error (fun v h => (hvalue v h).imp fun _ => And.left) herr
  · exact exists_error_of_error (fun v h => (hverdict v h).imp fun _ => And.left) herr

/-- Where evaluation fails, strict evaluation may have failed earlier, on a side that is left out. Where
it fails on such a side alone, evaluation comes to a verdict. -/
theorem short_circuits_keep_verdicts_of_ill_typed_sides :
    let decided : Expr := .or (.literal (.bool true)) (.literal (.text "left out"))
    let failing : CompiledRule := ⟨0, .and decided (.literal .null), [], []⟩
    let succeeding : CompiledRule := ⟨1, .and (.literal (.bool true)) decided, [], []⟩
    failing.condition.evaluate .empty = .error ⟨.and, .null⟩
      ∧ failing.condition.evaluateStrictly .empty = .error ⟨.or, .text "left out"⟩
      ∧ (∃ err, failing.verdictStrictly .empty = .error err)
      ∧ (succeeding.evaluate .empty).map Outcome.verdict = .ok ⟨1, true, []⟩
      ∧ ∃ err, succeeding.verdictStrictly .empty = .error err := by
  intro decided failing succeeding
  obtain ⟨-, -, -, herror⟩ := short_circuits_keep_verdicts failing .empty
  exact ⟨rfl, rfl, herror ⟨.and, .null⟩ rfl, rfl, ⟨_, rfl⟩⟩

end FormRules
