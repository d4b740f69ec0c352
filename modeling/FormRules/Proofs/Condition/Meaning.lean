-- SUMMARY: What the condition of a rule means on its own terms, which compiling keeps.
import FormRules.Proofs.Condition.Vocabulary

/-!
# The meaning of calls

`Call.holds` reads a condition as it stands in a rule: `is` compares what its two operands denote,
`and` wants all of its arguments, `or` any of them, whatever their number. It knows no expressions
and no order. A compiled call holds exactly when the call itself does (`Call.holds_of_compile`).
-/

namespace FormRules

/-! ## Meaning -/

/-- What an operand denotes: its text, unless that is empty; else the value of its field, unless its
name is empty; else nothing. -/
def Operand.denoted (values : FormValues) (o : Operand) : Value :=
  if o.value.getD "" ≠ "" then .text (o.value.getD "")
  else if o.field.getD "" ≠ "" then values.valueOf (o.field.getD "")
  else .null

/-- Whether there are two operands that denote the same. -/
def denoteSame (values : FormValues) : List Argument → Bool
  | [.operand l, .operand r] => l.denoted values = r.denoted values
  | _ => false

mutual

/-- Whether a condition holds, where names stand for built-in functions. -/
def Call.holds (vocabulary : Vocabulary) (values : FormValues) : Call → Bool
  | ⟨func, args⟩ =>
    match vocabulary func with
    | some .is => denoteSame values args
    | some .and => allHold vocabulary values args
    | some .or => someHolds vocabulary values args
    | none => false

/-- Whether an argument is a condition that holds. -/
def Argument.holds (vocabulary : Vocabulary) (values : FormValues) : Argument → Bool
  | .call c => c.holds vocabulary values
  | .operand _ => false

/-- Whether every argument holds. -/
def allHold (vocabulary : Vocabulary) (values : FormValues) : List Argument → Bool
  | [] => true
  | a :: rest => a.holds vocabulary values && allHold vocabulary values rest

/-- Whether an argument holds. -/
def someHolds (vocabulary : Vocabulary) (values : FormValues) : List Argument → Bool
  | [] => false
  | a :: rest => a.holds vocabulary values || someHolds vocabulary values rest

end

section

variable {vocabulary : Vocabulary} {values : FormValues}

theorem allHold_eq_all (args : List Argument) :
    allHold vocabulary values args = args.all (Argument.holds vocabulary values) := by
  induction args with
  | nil => rfl
  | cons a rest ih => rw [allHold, ih, List.all_cons]

theorem someHolds_eq_any (args : List Argument) :
    someHolds vocabulary values args = args.any (Argument.holds vocabulary values) := by
  induction args with
  | nil => rfl
  | cons a rest ih => rw [someHolds, ih, List.any_cons]

theorem Call.holds_is {func : String} (h : vocabulary func = some .is) (l r : Operand) :
    Call.holds vocabulary values ⟨func, [.operand l, .operand r]⟩
      = decide (l.denoted values = r.denoted values) := by
  simp [Call.holds, h, denoteSame]

theorem Call.holds_and {func : String} (h : vocabulary func = some .and) (args : List Argument) :
    Call.holds vocabulary values ⟨func, args⟩ = args.all (Argument.holds vocabulary values) := by
  simp [Call.holds, h, allHold_eq_all]

theorem Call.holds_or {func : String} (h : vocabulary func = some .or) (args : List Argument) :
    Call.holds vocabulary values ⟨func, args⟩ = args.any (Argument.holds vocabulary values) := by
  simp [Call.holds, h, someHolds_eq_any]

/-! ## Compiling keeps the meaning -/

theorem Operand.value_toExpr (o : Operand) : o.toExpr.value values = o.denoted values := by
  obtain ⟨_, field, value⟩ := o
  have hfilter : ∀ key : Option String,
      key.filter (!·.isEmpty) = if key.getD "" ≠ "" then some (key.getD "") else none := by
    rintro (_ | s)
    · simp
    · by_cases hs : s = "" <;> simp [hs, Option.filter]
  rw [Operand.toExpr, Operand.denoted, hfilter, hfilter]
  by_cases hv : value.getD "" = ""
  · by_cases hf : field.getD "" = "" <;> simp [hv, hf, Expr.value]
  · simp [hv, Expr.value]

/-- A compiled call holds exactly when the call does. -/
theorem Call.holds_of_compile {registry : Registry} (hs : registry.Speaks vocabulary) {c : Call}
    {e : Expr} (h : c.compile registry = .ok e) (values : FormValues) :
    e.holds values = c.holds vocabulary values := by
  refine Call.compile_induction hs
    (motive := fun c e => e.holds values = c.holds vocabulary values) ?is ?and ?or c e h
  case is =>
    intro func l r hb
    rw [Expr.holds_equal, Call.holds_is hb, l.value_toExpr, r.value_toExpr]
  case and =>
    intro func members hb ih
    rw [Builtin.joined_and (Expr.holds_literal_bool true) Expr.holds_and ih, Call.holds_and hb,
      List.all_map]
    rfl
  case or =>
    intro func members hb ih
    rw [Builtin.joined_or (Expr.holds_literal_bool false) Expr.holds_or ih, Call.holds_or hb,
      List.any_map]
    rfl

end

end FormRules
