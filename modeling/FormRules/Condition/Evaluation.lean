-- SUMMARY: Evaluating a condition against form values.
import FormRules.Condition.Trace
import FormRules.Values

/-!
# Evaluation

Equality compares any two values. Conjunction and disjunction want truth values and leave out the
right side where the left one decides.
-/

namespace FormRules

/-- Where evaluation wants a truth value. -/
inductive Operation where
  | and
  | or
  | condition
  deriving DecidableEq, Repr, Inhabited

def Operation.shown : Operation → String
  | and => "AND"
  | or => "OR"
  | condition => "rule condition"

/-- Why a condition has no outcome: something else stands where a truth value is wanted. -/
structure EvaluationError where
  operation : Operation
  found : Value
  deriving DecidableEq, Repr, Inhabited

def EvaluationError.message (e : EvaluationError) : String :=
  "Type mismatch during operation '" ++ e.operation.shown
    ++ "': expected Bool, but found value '" ++ e.found.shown ++ "'"

/-- The truth value that an operation wants. -/
def Value.asBool (operation : Operation) : Value → Except EvaluationError Bool
  | bool b => .ok b
  | found => .error ⟨operation, found⟩

@[simp] theorem Value.asBool_bool (operation : Operation) (b : Bool) :
    (Value.bool b).asBool operation = .ok b := rfl

/-- The value of a field: its text, or null if it has none. -/
def FormValues.valueOf (values : FormValues) (apiName : String) : Value :=
  match values.get? apiName with
  | some s => .text s
  | none => .null

namespace Expr

/-- Evaluate the sides of an operator that is decided as soon as its left side is `decisive`. -/
def evaluateSides (operation : Operation) (decisive : Bool) (left : Except EvaluationError Trace)
    (right : Except EvaluationError Trace) : Except EvaluationError Trace := do
  let l ← left
  let b ← l.outcome.asBool operation
  if b = decisive then return .binary operation.shown l .skipped (.bool decisive)
  else
    let r ← right
    let b ← r.outcome.asBool operation
    return .binary operation.shown l r (.bool b)

/-- Evaluate an expression and record how. -/
def evaluate (values : FormValues) : Expr → Except EvaluationError Trace
  | equal l r => do
    let left ← l.evaluate values
    let right ← r.evaluate values
    return .binary "==" left right (.bool (left.outcome = right.outcome))
  | and l r => evaluateSides .and false (l.evaluate values) (r.evaluate values)
  | or l r => evaluateSides .or true (l.evaluate values) (r.evaluate values)
  | literal v => .ok (.leaf v.shown v)
  | field apiName => .ok (.leaf ("$" ++ apiName) (values.valueOf apiName))

end Expr

end FormRules
