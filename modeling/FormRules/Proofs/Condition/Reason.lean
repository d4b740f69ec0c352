-- SUMMARY: The reason of a verdict is a formula that comes to the verdict with nothing left out.
import FormRules.Proofs.Condition.Steps

/-!
# Reasons explain verdicts

A trace leaves out the right side of an operator only where the left side decides. The formula of a
trace (`Trace.formula`) has the left side alone in the place of such an operator; it is read off the
trace without the expression that was evaluated, since no literal is shown with the sign of a field.
Evaluating the formula leaves nothing out and comes to the same outcome, and the reason is the
formula as a text, in which each field stands with its value.
-/

namespace FormRules

namespace Trace

/-! ## Parts of a trace -/

inductive Side where
  | left
  | right
  deriving DecidableEq, Repr

/-- The part of a trace at the end of a way through its operators. -/
def at? : Trace → List Side → Option Trace
  | t, [] => some t
  | binary _ left _ _, .left :: way => left.at? way
  | binary _ _ right _, .right :: way => right.at? way
  | leaf _ _, _ :: _ => none
  | skipped, _ :: _ => none

/-- Nothing is left out. -/
def IsComplete (t : Trace) : Prop := ∀ way, t.at? way ≠ some skipped

theorem isComplete_leaf (source : String) (value : Value) : (leaf source value).IsComplete := by
  intro way
  cases way <;> simp [at?]

theorem IsComplete.binary {l r : Trace} (hl : l.IsComplete) (hr : r.IsComplete) (symbol : String)
    (outcome : Value) : (binary symbol l r outcome).IsComplete := by
  intro way
  match way with
  | [] => simp [at?]
  | .left :: way => exact hl way
  | .right :: way => exact hr way

theorem IsComplete.sides {symbol : String} {l r : Trace} {outcome : Value}
    (h : (Trace.binary symbol l r outcome).IsComplete) : l.IsComplete ∧ r.IsComplete :=
  ⟨fun way => h (.left :: way), fun way => h (.right :: way)⟩

/-! ## The formula of a trace -/

/-- The expression of a leaf: a field if it begins with the sign of one. -/
def leafFormula (source : String) (value : Value) : Expr :=
  match source.toList with
  | '$' :: apiName => .field (String.ofList apiName)
  | _ => .literal value

/-- The expression of a trace, with the left side of an operator in its place where the right side
is left out. -/
def formula : Trace → Expr
  | binary symbol left right _ =>
    if right.isSkipped then left.formula
    else if symbol = "AND" then .and left.formula right.formula
    else if symbol = "OR" then .or left.formula right.formula
    else .equal left.formula right.formula
  | leaf source value => leafFormula source value
  | skipped => .literal .null

theorem toList_shown_ne_field (v : Value) (apiName : List Char) : v.shown.toList ≠ '$' :: apiName := by
  match v with
  | .text s => simp [Value.shown]
  | .bool true => simp [Value.shown]
  | .bool false => simp [Value.shown]
  | .null => simp [Value.shown]

@[simp] theorem formula_literal (v : Value) : (leaf v.shown v).formula = .literal v := by
  rw [formula, leafFormula]
  split
  · next apiName h => exact absurd h (toList_shown_ne_field v apiName)
  · rfl

@[simp] theorem formula_field (apiName : String) (value : Value) :
    (leaf ("$" ++ apiName) value).formula = .field apiName := by
  simp [formula, leafFormula]

@[simp] theorem formula_decided (symbol : String) (left : Trace) (outcome : Value) :
    (binary symbol left skipped outcome).formula = left.formula := rfl

theorem formula_both (c : Connective) {right : Trace} (h : right.isSkipped = false) (left : Trace)
    (outcome : Value) :
    (binary c.symbol left right outcome).formula = c.join left.formula right.formula := by
  cases c <;> simp [formula, h, Connective.symbol, Connective.join]

theorem formula_equal {right : Trace} (h : right.isSkipped = false) (left : Trace)
    (outcome : Value) :
    (binary "==" left right outcome).formula = .equal left.formula right.formula := by
  simp [formula, h]

end Trace

/-! ## The text of a formula -/

/-- The value of a field as a reason tells it. -/
def FormValues.told (values : FormValues) (apiName : String) : String :=
  match values.get? apiName with
  | some s => "\"" ++ s ++ "\""
  | none => "unset"

/-- A text shows an expression: its leaves stand in their order with the operators between them, a
literal as it is and a field with its value. Any part may stand in parentheses. -/
inductive Expr.ShownAs (values : FormValues) : Expr → String → Prop where
  | literal (v : Value) : ShownAs values (.literal v) v.shown
  | field (apiName : String) :
    ShownAs values (.field apiName) ("$" ++ apiName ++ " (was " ++ values.told apiName ++ ")")
  | and {l r : Expr} {a b : String} (hl : ShownAs values l a) (hr : ShownAs values r b) :
    ShownAs values (.and l r) (a ++ " AND " ++ b)
  | or {l r : Expr} {a b : String} (hl : ShownAs values l a) (hr : ShownAs values r b) :
    ShownAs values (.or l r) (a ++ " OR " ++ b)
  | equal {l r : Expr} {a b : String} (hl : ShownAs values l a) (hr : ShownAs values r b) :
    ShownAs values (.equal l r) (a ++ " == " ++ b)
  | within {e : Expr} {a : String} (h : ShownAs values e a) : ShownAs values e ("(" ++ a ++ ")")

variable {values : FormValues}

theorem Expr.ShownAs.parenthesized {e : Expr} {a : String} (h : e.ShownAs values a)
    (own surrounding : Nat) : e.ShownAs values (FormRules.parenthesized own surrounding a) := by
  unfold FormRules.parenthesized
  split
  · exact .within h
  · exact h

theorem Expr.ShownAs.join (c : Connective) {l r : Expr} {a b : String} (hl : l.ShownAs values a)
    (hr : r.ShownAs values b) : (c.join l r).ShownAs values (a ++ " " ++ c.symbol ++ " " ++ b) := by
  cases c with
  | and => simpa [Connective.symbol, Connective.join, String.append_assoc] using Expr.ShownAs.and hl hr
  | or => simpa [Connective.symbol, Connective.join, String.append_assoc] using Expr.ShownAs.or hl hr

theorem shownValue_valueOf (apiName : String) :
    Trace.shownValue (values.valueOf apiName) = values.told apiName := by
  unfold FormValues.valueOf FormValues.told
  cases values.get? apiName <;> rfl

namespace Expr.Evaluates

variable {e : Expr} {t : Trace}

/-! ## What holds of every trace -/

theorem isSkipped_eq_false (h : e.Evaluates values t) : t.isSkipped = false := by
  cases h <;> rfl

/-- What is left out is the right side of a conjunction whose left side is false, or of a
disjunction whose left side is true. -/
theorem decided_of_skipped (h : e.Evaluates values t) {way : List Trace.Side}
    (hway : t.at? way = some .skipped) : ∃ before symbol l outcome, way = before ++ [.right]
      ∧ t.at? before = some (.binary symbol l .skipped outcome)
      ∧ (symbol = "AND" ∧ l.outcome = .bool false ∨ symbol = "OR" ∧ l.outcome = .bool true) := by
  induction h generalizing way with
  | literal | field => cases way <;> simp [Trace.at?] at hway
  | equal _ _ ihl ihr | both _ _ _ _ _ ihl ihr =>
    match way with
    | [] => simp [Trace.at?] at hway
    | .left :: way =>
      obtain ⟨before, symbol, l, outcome, rfl, hbefore, hdecides⟩ := ihl hway
      exact ⟨.left :: before, symbol, l, outcome, rfl, hbefore, hdecides⟩
    | .right :: way =>
      obtain ⟨before, symbol, l, outcome, rfl, hbefore, hdecides⟩ := ihr hway
      exact ⟨.right :: before, symbol, l, outcome, rfl, hbefore, hdecides⟩
  | @decided c l tl r hl hlo ihl =>
    match way with
    | [] => simp [Trace.at?] at hway
    | .left :: way =>
      obtain ⟨before, symbol, l, outcome, rfl, hbefore, hdecides⟩ := ihl hway
      exact ⟨.left :: before, symbol, l, outcome, rfl, hbefore, hdecides⟩
    | [.right] =>
      refine ⟨[], c.symbol, tl, _, rfl, rfl, ?_⟩
      cases c with
      | and => exact .inl ⟨rfl, hlo⟩
      | or => exact .inr ⟨rfl, hlo⟩
    | .right :: _ :: _ => simp [Trace.at?] at hway

/-- The formula of a trace evaluates to the same outcome with nothing left out. -/
theorem exists_complete (h : e.Evaluates values t) :
    ∃ t', t.formula.Evaluates values t' ∧ t'.outcome = t.outcome ∧ t'.IsComplete := by
  induction h with
  | literal v => exact ⟨_, by simpa using .literal v, rfl, Trace.isComplete_leaf _ _⟩
  | field apiName => exact ⟨_, by simpa using .field apiName, rfl, Trace.isComplete_leaf _ _⟩
  | @equal l r tl tr _ hr ihl ihr =>
    obtain ⟨tl', hl', hlo', hlc⟩ := ihl
    obtain ⟨tr', hr', hro', hrc⟩ := ihr
    rw [Trace.formula_equal hr.isSkipped_eq_false]
    have houtcome : Value.bool (tl'.outcome = tr'.outcome) = .bool (tl.outcome = tr.outcome) := by
      rw [hlo', hro']
    exact ⟨_, .equal hl' hr', houtcome, hlc.binary hrc _ _⟩
  | decided c r _ hlo ihl =>
    obtain ⟨tl', hl', hlo', hlc⟩ := ihl
    exact ⟨tl', hl', hlo'.trans hlo, hlc⟩
  | both c _ hlo hr hro ihl ihr =>
    obtain ⟨tl', hl', hlo', hlc⟩ := ihl
    obtain ⟨tr', hr', hro', hrc⟩ := ihr
    rw [Trace.formula_both c hr.isSkipped_eq_false]
    exact ⟨_, .both c hl' (hlo'.trans hlo) hr' (hro'.trans hro), rfl, hlc.binary hrc _ _⟩

/-- The formula of a trace that leaves nothing out is the expression that was evaluated. -/
theorem formula_eq (h : e.Evaluates values t) (hcomplete : t.IsComplete) : t.formula = e := by
  induction h with
  | literal v => simp
  | field apiName => simp
  | equal _ hr ihl ihr =>
    obtain ⟨hlc, hrc⟩ := hcomplete.sides
    rw [Trace.formula_equal hr.isSkipped_eq_false, ihl hlc, ihr hrc]
  | decided => exact absurd rfl (hcomplete [.right])
  | both c _ _ hr _ ihl ihr =>
    obtain ⟨hlc, hrc⟩ := hcomplete.sides
    rw [Trace.formula_both c hr.isSkipped_eq_false, ihl hlc, ihr hrc]

/-- A trace is shown as its formula, whatever surrounds it. -/
theorem shownAs (h : e.Evaluates values t) (surrounding : Nat) :
    t.formula.ShownAs values (t.shownWithin surrounding) := by
  induction h generalizing surrounding with
  | literal v =>
    have hleaf : Trace.shownLeaf v.shown v = v.shown := by
      refine if_neg fun hhead => ?_
      obtain ⟨apiName, hname⟩ := List.head?_eq_some_iff.mp hhead
      exact Trace.toList_shown_ne_field v apiName hname
    rw [Trace.formula_literal, Trace.shownWithin, hleaf]
    exact (ShownAs.literal v).parenthesized 9 surrounding
  | field apiName =>
    have hleaf : Trace.shownLeaf ("$" ++ apiName) (values.valueOf apiName)
        = "$" ++ apiName ++ " (was " ++ values.told apiName ++ ")" := by
      simp [Trace.shownLeaf, shownValue_valueOf]
    rw [Trace.formula_field, Trace.shownWithin, hleaf]
    exact (ShownAs.field apiName).parenthesized 9 surrounding
  | equal _ hr ihl ihr =>
    rw [Trace.formula_equal hr.isSkipped_eq_false, Trace.shownWithin, hr.isSkipped_eq_false]
    refine ShownAs.parenthesized ?_ _ surrounding
    simpa [String.append_assoc] using ShownAs.equal (ihl _) (ihr _)
  | decided c r _ _ ihl => exact (ihl _).parenthesized _ surrounding
  | both c _ _ hr _ ihl ihr =>
    rw [Trace.formula_both c hr.isSkipped_eq_false, Trace.shownWithin, hr.isSkipped_eq_false]
    exact (ShownAs.join c (ihl _) (ihr _)).parenthesized _ surrounding

end Expr.Evaluates

/-! ## Reasons -/

/-- Let an expression evaluate to a trace. What the trace leaves out is the right side of a
conjunction whose left side is false or of a disjunction whose left side is true. The formula of the
trace, which is the expression itself if nothing is left out, evaluates to the same outcome with
nothing left out, and the reason shows it, leaf by leaf, each field with its value. -/
theorem reason_explains_verdict {e : Expr} {t : Trace} (h : e.evaluate values = .ok t) :
    (∀ way, t.at? way = some .skipped → ∃ before symbol l outcome, way = before ++ [.right]
      ∧ t.at? before = some (.binary symbol l .skipped outcome)
      ∧ (symbol = "AND" ∧ l.outcome = .bool false ∨ symbol = "OR" ∧ l.outcome = .bool true))
    ∧ (∃ t', t.formula.evaluate values = .ok t' ∧ t'.outcome = t.outcome ∧ t'.IsComplete)
    ∧ (t.IsComplete → t.formula = e)
    ∧ t.formula.ShownAs values t.reason := by
  have hsteps := Expr.evaluate_eq_ok_iff.mp h
  obtain ⟨t', ht', houtcome, hcomplete⟩ := hsteps.exists_complete
  refine ⟨fun way => hsteps.decided_of_skipped, ⟨t', ?_, houtcome, hcomplete⟩, hsteps.formula_eq,
    hsteps.shownAs 0⟩
  exact Expr.evaluate_eq_ok_iff.mpr ht'

/-- The side that is left out has no truth value, and one of the fields that are shown no text. -/
theorem reason_explains_verdict_of_skipped_side :
    let values : FormValues := Table.ofList [("a", "0"), ("b", "$b")]
    let decisive : Expr := .equal (.field "a") (.literal (.text "$1"))
    let other : Expr := .equal (.field "c") (.literal .null)
    ∃ t, (Expr.or (.and decisive (.field "b")) other).evaluate values = .ok t
      ∧ t.at? [.left, .right] = some .skipped
      ∧ (∃ before symbol l outcome, [Trace.Side.left, .right] = before ++ [.right]
        ∧ t.at? before = some (.binary symbol l .skipped outcome)
        ∧ (symbol = "AND" ∧ l.outcome = .bool false ∨ symbol = "OR" ∧ l.outcome = .bool true))
      ∧ (∃ t', (Expr.or decisive other).evaluate values = .ok t' ∧ t'.outcome = .bool true
        ∧ t'.IsComplete)
      ∧ (Expr.or decisive other).ShownAs values
        "$a (was \"0\") == \"$1\" OR $c (was unset) == null" := by
  intro values decisive other
  let t : Trace := .binary "OR"
    (.binary "AND"
      (.binary "==" (.leaf "$a" (.text "0")) (.leaf "\"$1\"" (.text "$1")) (.bool false))
      .skipped (.bool false))
    (.binary "==" (.leaf "$c" .null) (.leaf "null" .null) (.bool true)) (.bool true)
  have ht : (Expr.or (.and decisive (.field "b")) other).evaluate values = .ok t := rfl
  obtain ⟨hskipped, hformula, -, hshown⟩ := reason_explains_verdict ht
  exact ⟨t, ht, rfl, hskipped _ rfl, hformula, hshown⟩

end FormRules
