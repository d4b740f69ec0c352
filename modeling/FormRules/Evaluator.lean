-- SUMMARY: Evaluating compiled rules: which effects follow, and why.
import FormRules.Condition.Compilation
import FormRules.Condition.Evaluation

/-!
# Evaluators

An evaluator holds compiled rules and has no state. It evaluates all of them, or those that an
update of some fields can concern, always in their order and up to the first error.
-/

namespace FormRules

/-- What became of a rule: whether its condition held, the effects that follow, and the reason. -/
structure Outcome where
  ruleIndex : Nat
  fulfilled : Bool
  effects : List Call
  reason : String
  deriving Inhabited

def CompiledRule.evaluate (values : FormValues) (r : CompiledRule) :
    Except EvaluationError Outcome := do
  let trace ← r.condition.evaluate values
  let fulfilled ← trace.outcome.asBool .condition
  return {
    ruleIndex := r.index
    fulfilled
    effects := if fulfilled then r.fulfilled else r.rejected
    reason := trace.reason }

/-- Compiled rules, ready for any number of values. -/
structure Evaluator where
  rules : List CompiledRule
  deriving Inhabited

namespace Evaluator

def ofRules (registry : Registry) (rules : List Rule) : Except CompileError Evaluator :=
  (RuleSet.compile registry rules).map Evaluator.mk

/-- Evaluate rules in order, up to the first error. -/
def evaluateAll (values : FormValues) : List CompiledRule → Except EvaluationError (List Outcome)
  | [] => .ok []
  | r :: rest => do
    let outcome ← r.evaluate values
    let others ← evaluateAll values rest
    return outcome :: others

def evaluate (e : Evaluator) (values : FormValues) : Except EvaluationError (List Outcome) :=
  evaluateAll values e.rules

/-- Evaluate the rules whose conditions an update of some fields can alter. -/
def evaluateUpdated (e : Evaluator) (values : FormValues) (updated : List String) :
    Except EvaluationError (List Outcome) :=
  evaluateAll values (e.rules.filter (·.condition.isTouchedBy updated))

end Evaluator

end FormRules
