-- SUMMARY: Expressions that differ in the nesting of chains alone have one text and one outcome.
import FormRules.Proofs.Condition.Steps

/-!
# Chains of conjunctions and disjunctions

A chain of conjunctions can be nested in several ways, and so can a chain of disjunctions.
`Expr.Reassociates` relates expressions that differ in nothing else. Neither their texts nor their
outcomes tell them apart: no parentheses are shown within a chain, and its sides are evaluated from
left to right until one decides or fails, however they are nested.
-/

namespace FormRules

namespace Expr

/-- Two expressions differ at most in how chains of one connective are nested. -/
inductive Reassociates : Expr → Expr → Prop where
  | refl (e : Expr) : Reassociates e e
  | symm {e e' : Expr} (h : Reassociates e e') : Reassociates e' e
  | trans {e e' e'' : Expr} (h : Reassociates e e') (h' : Reassociates e' e'') : Reassociates e e''
  | join (c : Connective) {l l' r r' : Expr} (hl : Reassociates l l') (hr : Reassociates r r') :
    Reassociates (c.join l r) (c.join l' r')
  | assoc (c : Connective) (e₁ e₂ e₃ : Expr) :
    Reassociates (c.join (c.join e₁ e₂) e₃) (c.join e₁ (c.join e₂ e₃))

end Expr

/-! ## One text -/

/-- How strongly a connective binds when it is shown. -/
def Connective.precedence : Connective → Nat
  | and => 2
  | or => 1

/-- A connective as it stands between its sides. -/
def Connective.between (c : Connective) : String := " " ++ c.symbol ++ " "

@[simp] theorem parenthesized_self (own : Nat) (s : String) : parenthesized own own s = s := by
  simp [parenthesized]

namespace Expr

theorem shownWithin_join (c : Connective) (l r : Expr) (surrounding : Nat) :
    (c.join l r).shownWithin surrounding = parenthesized c.precedence surrounding
      (l.shownWithin c.precedence ++ c.between ++ r.shownWithin c.precedence) := by
  cases c <;> rfl

/-- Expressions that differ in the nesting of chains are shown alike, whatever surrounds them. -/
theorem Reassociates.shownWithin_eq {e e' : Expr} (h : e.Reassociates e') (surrounding : Nat) :
    e.shownWithin surrounding = e'.shownWithin surrounding := by
  induction h generalizing surrounding with
  | refl => rfl
  | symm _ ih => exact (ih surrounding).symm
  | trans _ _ ih ih' => exact (ih surrounding).trans (ih' surrounding)
  | join c _ _ ihl ihr => rw [shownWithin_join, shownWithin_join, ihl, ihr]
  | assoc c e₁ e₂ e₃ => simp only [shownWithin_join, parenthesized_self, String.append_assoc]

end Expr

/-! ## One outcome -/

@[simp] theorem Trace.outcome_binary (symbol : String) (left right : Trace) (outcome : Value) :
    (Trace.binary symbol left right outcome).outcome = outcome := rfl

/-- The outcome of an expression, or the error. -/
def Expr.outcome (values : FormValues) (e : Expr) : Except EvaluationError Value :=
  (e.evaluate values).map Trace.outcome

namespace Connective

/-- The outcome of a connective by the outcomes of its sides. The right one counts only if the left
one does not decide. -/
def combine (c : Connective) (left right : Except EvaluationError Value) :
    Except EvaluationError Value := do
  let v ← left
  let b ← v.asBool c.operation
  if b = c.decisive then return .bool c.decisive
  else
    let v ← right
    let b ← v.asBool c.operation
    return .bool b

theorem combine_assoc (c : Connective) (x y z : Except EvaluationError Value) :
    c.combine (c.combine x y) z = c.combine x (c.combine y z) := by
  cases x with
  | error err => rfl
  | ok v =>
    cases v with
    | text | null => rfl
    | bool b =>
      by_cases hb : b = c.decisive
      · simp [combine, hb]
      · -- the first side decides nothing, so that both ways go on with the second one
        cases y with
        | error err => simp [combine, hb]
        | ok w =>
          cases w with
          | text | null => simp [combine, hb, Value.asBool]
          | bool b' =>
            by_cases hb' : b' = c.decisive
            · simp [combine, hb']
            · simp [combine, hb, hb']

end Connective

namespace Expr

variable {values : FormValues}

theorem outcome_join (c : Connective) (l r : Expr) :
    (c.join l r).outcome values = c.combine (l.outcome values) (r.outcome values) := by
  unfold outcome
  rw [evaluate_join]
  unfold evaluateSides Connective.combine
  cases l.evaluate values with
  | error err => rfl
  | ok tl =>
    cases hl : tl.outcome.asBool c.operation with
    | error err => simp [hl]
    | ok b =>
      by_cases hb : b = c.decisive
      · simp [hl, hb]
      · cases r.evaluate values with
        | error err => simp [hl, hb]
        | ok tr => cases hr : tr.outcome.asBool c.operation <;> simp [hl, hb, hr]

/-- Expressions that differ in the nesting of chains have the same outcome or the same error. -/
theorem Reassociates.outcome_eq {e e' : Expr} (h : e.Reassociates e') :
    e.outcome values = e'.outcome values := by
  induction h with
  | refl => rfl
  | symm _ ih => exact ih.symm
  | trans _ _ ih ih' => exact ih.trans ih'
  | join c _ _ ihl ihr => rw [outcome_join, outcome_join, ihl, ihr]
  | assoc c e₁ e₂ e₃ => simp only [outcome_join, c.combine_assoc]

end Expr

end FormRules
