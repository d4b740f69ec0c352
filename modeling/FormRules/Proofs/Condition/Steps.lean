-- SUMMARY: Evaluation as a relation between expressions and traces, with one rule for each way to go on.
import FormRules.Condition.Evaluation
import FormRules.Proofs.Success

/-!
# Evaluation, rule by rule

Conjunction and disjunction differ only in the truth value of the left side that decides them, so
both are a `Connective` here. `Expr.Evaluates` has one rule for each leaf and for equality, and two
for a connective: its left side decides, or both sides count. An expression evaluates to a trace
exactly if `Expr.evaluate` yields it (`Expr.evaluate_eq_ok_iff`). What holds of all traces is shown
by induction over the rules.
-/

namespace FormRules

/-- An operator on truth values. -/
inductive Connective where
  | and
  | or
  deriving DecidableEq, Repr

namespace Connective

def join : Connective → Expr → Expr → Expr
  | and => .and
  | or => .or

def symbol : Connective → String
  | and => "AND"
  | or => "OR"

/-- The truth value of the left side that makes the right side superfluous. -/
def decisive : Connective → Bool
  | and => false
  | or => true

/-- The operation that wants the truth values. -/
def operation : Connective → Operation
  | and => .and
  | or => .or

theorem shown_operation (c : Connective) : c.operation.shown = c.symbol := by
  cases c <;> rfl

end Connective

namespace Expr

variable {values : FormValues}

theorem evaluate_join (c : Connective) (l r : Expr) : (c.join l r).evaluate values
    = evaluateSides c.operation c.decisive (l.evaluate values) (r.evaluate values) := by
  cases c <;> rfl

/-- An expression evaluates to a trace. -/
inductive Evaluates (values : FormValues) : Expr → Trace → Prop where
  | literal (v : Value) : Evaluates values (.literal v) (.leaf v.shown v)
  | field (apiName : String) :
    Evaluates values (.field apiName) (.leaf ("$" ++ apiName) (values.valueOf apiName))
  | equal {l r : Expr} {tl tr : Trace} (hl : Evaluates values l tl) (hr : Evaluates values r tr) :
    Evaluates values (.equal l r) (.binary "==" tl tr (.bool (tl.outcome = tr.outcome)))
  | decided (c : Connective) {l : Expr} {tl : Trace} (r : Expr) (hl : Evaluates values l tl)
    (hlo : tl.outcome = .bool c.decisive) :
    Evaluates values (c.join l r) (.binary c.symbol tl .skipped (.bool c.decisive))
  | both (c : Connective) {l r : Expr} {tl tr : Trace} {b : Bool} (hl : Evaluates values l tl)
    (hlo : tl.outcome = .bool !c.decisive) (hr : Evaluates values r tr)
    (hro : tr.outcome = .bool b) :
    Evaluates values (c.join l r) (.binary c.symbol tl tr (.bool b))

theorem asBool_eq_ok {operation : Operation} {v : Value} {b : Bool} :
    v.asBool operation = .ok b ↔ v = .bool b := by
  cases v <;> simp [Value.asBool]

/-- The sides of an operator have a trace if the left one decides, or if both have truth values. -/
theorem evaluateSides_eq_ok {operation : Operation} {decisive : Bool}
    {left right : Except EvaluationError Trace} {t : Trace} :
    evaluateSides operation decisive left right = .ok t ↔ ∃ tl, left = .ok tl ∧
      (tl.outcome = .bool decisive ∧ t = .binary operation.shown tl .skipped (.bool decisive)
      ∨ tl.outcome = .bool !decisive ∧ ∃ tr b, right = .ok tr ∧ tr.outcome = .bool b
        ∧ t = .binary operation.shown tl tr (.bool b)) := by
  simp only [evaluateSides, bind_eq_ok, asBool_eq_ok]
  refine exists_congr fun tl => and_congr_right fun _ => ?_
  constructor
  · rintro ⟨b, hb, ht⟩
    by_cases hdecisive : b = decisive
    · subst hdecisive
      exact .inl ⟨hb, by simpa [eq_comm] using ht⟩
    · obtain rfl : b = !decisive := Bool.eq_not_of_ne hdecisive
      simp only [hdecisive, if_false, bind_eq_ok, asBool_eq_ok] at ht
      obtain ⟨tr, hr, b, hro, ht⟩ := ht
      exact .inr ⟨hb, tr, b, hr, hro, by simpa [eq_comm] using ht⟩
  · rintro (⟨hb, rfl⟩ | ⟨hb, tr, b, hr, hro, rfl⟩)
    · exact ⟨decisive, hb, by simp⟩
    · refine ⟨!decisive, hb, ?_⟩
      simp [hr, hro]

theorem evaluates_join_of_evaluate (c : Connective) {l r : Expr} {t : Trace}
    (ihl : ∀ t, l.evaluate values = .ok t → l.Evaluates values t)
    (ihr : ∀ t, r.evaluate values = .ok t → r.Evaluates values t)
    (h : (c.join l r).evaluate values = .ok t) : (c.join l r).Evaluates values t := by
  rw [evaluate_join, evaluateSides_eq_ok, c.shown_operation] at h
  obtain ⟨tl, hl, ⟨hlo, rfl⟩ | ⟨hlo, tr, b, hr, hro, rfl⟩⟩ := h
  · exact .decided c r (ihl tl hl) hlo
  · exact .both c (ihl tl hl) hlo (ihr tr hr) hro

/-- The rules say what evaluation does. -/
theorem evaluate_eq_ok_iff {e : Expr} {t : Trace} :
    e.evaluate values = .ok t ↔ e.Evaluates values t := by
  constructor
  · intro h
    induction e generalizing t with
    | literal v =>
      cases h
      exact .literal v
    | field apiName =>
      cases h
      exact .field apiName
    | equal l r ihl ihr =>
      simp only [evaluate, bind_eq_ok] at h
      obtain ⟨tl, hl, tr, hr, ht⟩ := h
      cases ht
      exact .equal (ihl hl) (ihr hr)
    | and l r ihl ihr => exact evaluates_join_of_evaluate .and (fun _ => ihl) (fun _ => ihr) h
    | or l r ihl ihr => exact evaluates_join_of_evaluate .or (fun _ => ihl) (fun _ => ihr) h
  · intro h
    induction h with
    | literal v => rfl
    | field apiName => rfl
    | equal _ _ ihl ihr => simp [evaluate, ihl, ihr]
    | decided c r _ hlo ihl =>
      rw [evaluate_join, evaluateSides_eq_ok, c.shown_operation]
      exact ⟨_, ihl, .inl ⟨hlo, rfl⟩⟩
    | both c _ hlo _ hro ihl ihr =>
      rw [evaluate_join, evaluateSides_eq_ok, c.shown_operation]
      exact ⟨_, ihl, .inr ⟨hlo, _, _, ihr, hro, rfl⟩⟩

end Expr

end FormRules
