-- SUMMARY: Traces of evaluations and the reasons that they give.
import FormRules.Condition.Expr

/-!
# Traces

A trace records how an expression came to its outcome: the operators with their outcomes, the leaves
with their values, and the sides that were not needed. Shown as a text it is the reason for the
outcome.
-/

namespace FormRules

inductive Trace where
  | binary (symbol : String) (left right : Trace) (outcome : Value)
  | leaf (source : String) (value : Value)
  | skipped
  deriving DecidableEq, Repr, Inhabited

namespace Trace

def outcome : Trace → Value
  | binary _ _ _ outcome => outcome
  | leaf _ value => value
  | skipped => .null

/-- How strongly the operator of a symbol binds. -/
def symbolPrecedence (symbol : String) : Nat :=
  if symbol = "OR" then 1 else if symbol = "AND" then 2 else if symbol = "==" then 4 else 0

/-- How strongly a trace binds when it is shown. -/
def precedence : Trace → Nat
  | binary symbol _ _ _ => symbolPrecedence symbol
  | leaf _ _ => 9
  | skipped => 9

def isSkipped : Trace → Bool
  | skipped => true
  | _ => false

/-- The value that a field had, as a reason shows it. -/
def shownValue : Value → String
  | .null => "unset"
  | v => v.shown

/-- A leaf as a reason shows it: a field comes with its value. -/
def shownLeaf (source : String) (value : Value) : String :=
  if source.toList.head? = some '$' then source ++ " (was " ++ shownValue value ++ ")" else source

/-- A trace as it is shown inside an operator of a given precedence. An operator whose right side was
not needed shows the left side alone. -/
def shownWithin (surrounding : Nat) : Trace → String
  | binary symbol left right _ =>
    let own := symbolPrecedence symbol
    let words := left.shownWithin own
    parenthesized own surrounding <|
      if right.isSkipped then words
      else words ++ " " ++ symbol ++ " " ++ right.shownWithin own
  | leaf source value => parenthesized 9 surrounding (shownLeaf source value)
  | skipped => parenthesized 9 surrounding ""

def reason (t : Trace) : String := t.shownWithin 0

end Trace

end FormRules
