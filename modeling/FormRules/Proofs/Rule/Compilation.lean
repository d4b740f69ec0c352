-- SUMMARY: Rules are compiled one by one, and the first defect of the first failing rule is reported.
import FormRules.Proofs.Condition.FirstDefect
import FormRules.Proofs.Evaluator.Verdict

/-!
# Compiling rules

Rules are compiled in their order. Either all of them are, and then each keeps its effects and gets
its position as its number (`RuleSet.compileFrom_eq_ok_iff`), or the error of the first that is not
compiled is that of the whole (`RuleSet.compileFrom_eq_error_iff`). For the built-in functions the
error of a rule is in turn the first defect of its condition (`compilation_reports_first_defect`).
-/

namespace FormRules

/-- A compiled rule has the number of a rule, the expression of its condition and its effects. -/
structure CompiledRule.ComesFrom (compiled : CompiledRule) (registry : Registry) (index : Nat)
    (r : Rule) : Prop where
  index : compiled.index = index
  condition : r.condition.compile registry = .ok compiled.condition
  fulfilled : compiled.fulfilled = r.fulfilled
  rejected : compiled.rejected = r.rejected

theorem CompiledRule.ComesFrom.eq {compiled : CompiledRule} {registry : Registry} {index : Nat}
    {r : Rule} (h : compiled.ComesFrom registry index r) :
    compiled = ⟨index, compiled.condition, r.fulfilled, r.rejected⟩ := by
  obtain ⟨hindex, -, hfulfilled, hrejected⟩ := h
  cases compiled
  simp_all

namespace RuleSet

variable {registry : Registry} {index : Nat}

/-- Rules that are all compiled are numbered in their order. -/
theorem compileFrom_eq_ok_iff {rules : List Rule} {compiled : List CompiledRule} :
    compileFrom registry index rules = .ok compiled ↔
      List.Forall₂ (fun numbered c => c.ComesFrom registry numbered.2 numbered.1)
        (rules.zipIdx index) compiled := by
  induction rules generalizing index compiled with
  | nil => simp [compileFrom, eq_comm]
  | cons r rest ih =>
    rw [compileFrom_cons_eq_ok, List.zipIdx_cons]
    constructor
    · rintro ⟨e, others, he, hothers, rfl⟩
      exact .cons ⟨rfl, he, rfl, rfl⟩ (ih.mp hothers)
    · intro h
      cases h with
      | @cons _ c _ others hc hothers =>
        exact ⟨c.condition, others, hc.condition, ih.mpr hothers, congrArg (· :: others) hc.eq⟩

theorem compileFrom_cons_eq_error {r : Rule} {rest : List Rule} {err : CompileError} :
    compileFrom registry index (r :: rest) = .error err ↔
      r.condition.compile registry = .error err
        ∨ (∃ e, r.condition.compile registry = .ok e)
          ∧ compileFrom registry (index + 1) rest = .error err := by
  cases hr : r.condition.compile registry with
  | error e => simp [compileFrom, Rule.compile, hr]
  | ok e =>
    cases hrest : compileFrom registry (index + 1) rest <;>
      simp [compileFrom, Rule.compile, hr, hrest]

/-- The first rule that is not compiled decides. -/
theorem compileFrom_eq_error_iff {rules : List Rule} {err : CompileError} :
    compileFrom registry index rules = .error err ↔
      ∃ before r after, rules = before ++ r :: after
        ∧ (∀ earlier ∈ before, ∃ e, earlier.condition.compile registry = .ok e)
        ∧ r.condition.compile registry = .error err := by
  induction rules generalizing index with
  | nil => simp [compileFrom]
  | cons first rest ih =>
    rw [compileFrom_cons_eq_error, ih]
    constructor
    · rintro (hfirst | ⟨hfirst, before, r, after, rfl, hbefore, hr⟩)
      · exact ⟨[], first, rest, rfl, by simp, hfirst⟩
      · exact ⟨first :: before, r, after, rfl, List.forall_mem_cons.mpr ⟨hfirst, hbefore⟩, hr⟩
    · rintro ⟨before, r, after, hsplit, hbefore, hr⟩
      cases before with
      | nil =>
        obtain ⟨rfl, rfl⟩ := List.cons.inj hsplit
        exact .inl hr
      | cons earlier before =>
        obtain ⟨rfl, rfl⟩ := List.cons.inj hsplit
        obtain ⟨hfirst, hbefore⟩ := List.forall_mem_cons.mp hbefore
        exact .inr ⟨hfirst, before, r, after, rfl, hbefore, hr⟩

end RuleSet

/-- A call is compiled exactly if it is well formed, and otherwise the error is the one of its
defects that comes first. Of some rules the first that is not compiled gives the error; if all of
them are, they keep their order and their effects and are numbered from zero. -/
theorem compilation_reports_first_defect (c : Call) (rules : List Rule) :
    ((∃ e, c.compile .default = .ok e) ↔ c.IsWellFormed)
    ∧ (∀ err, c.compile .default = .error err ↔ ∃ place, c.Defect.First place err)
    ∧ (∀ err, RuleSet.compile .default rules = .error err ↔
        ∃ before r after, rules = before ++ r :: after
          ∧ (∀ earlier ∈ before, ∃ e, earlier.condition.compile .default = .ok e)
          ∧ r.condition.compile .default = .error err)
    ∧ ∀ compiled, RuleSet.compile .default rules = .ok compiled ↔
        List.Forall₂ (fun numbered c => c.ComesFrom .default numbered.2 numbered.1)
          rules.zipIdx compiled :=
  ⟨c.compile_succeeds_iff, fun _ => c.checks_compile.fails_iff,
    fun _ => RuleSet.compileFrom_eq_error_iff, fun _ => RuleSet.compileFrom_eq_ok_iff⟩

end FormRules
