-- SUMMARY: What an evaluation is made of, and that `evaluate` prints its report as a whole or not at all.
import FormRules.Command.Run
import FormRules.Proofs.Form.Run

/-!
# Evaluations

An evaluation is what `evaluate` has in hand once nothing that can fail is left: the form, the
provided values and the outcomes. Its rules come from the default registry, so that its form starts
(`EvaluateOptions.start_of_evaluation`), and `evaluate` prints all that it was asked for.
-/

namespace FormRules

/-- A command exits with 0 unless it ends with an error, its own or that of writing a file. -/
theorem Exit.code_ofOutput (verbose : Bool) (o : Output) (writing : Option CommandError) :
    (Exit.ofOutput verbose o writing).code = if (o.error.or writing).isSome then 1 else 0 := by
  unfold ofOutput
  cases o.error.or writing <;> rfl

/-- A command that writes no file leaves all files as they are. -/
theorem FileSystem.commit_of_saved_eq_none {σ : Type} {output : Output} (h : output.saved = none)
    (fs : FileSystem σ) (verbose : Bool) (d : σ) :
    fs.commit verbose output d = (.ofOutput verbose output none, d) := by
  simp [FileSystem.commit, h]

/-- A command that writes a file ends with the error of writing it, if there is one. -/
theorem FileSystem.commit_of_saved {σ : Type} {output : Output} {path content : String}
    (h : output.saved = some (path, content)) {fs : FileSystem σ} {verbose : Bool} {d d' : σ}
    {exit : Exit} (hcommit : fs.commit verbose output d = (exit, d')) :
    ∃ error, fs.write d path content = (error, d')
      ∧ exit = .ofOutput verbose output (error.map (.output path)) := by
  simp only [FileSystem.commit, h] at hcommit
  cases hcommit
  exact ⟨_, rfl, rfl⟩

/-- The values that the rules are evaluated on: the provided values over the initial ones. -/
def Evaluation.values (e : Evaluation) : FormValues :=
  (e.form.layout.initialValues e.provided).mergedWith e.provided

namespace EvaluateOptions

variable {o : EvaluateOptions} {read : FileReader} {e : Evaluation}

/-- The steps that lead to an evaluation. -/
theorem evaluation_eq_ok : o.evaluation read = .ok e ↔
    ∃ rules, o.layout.load read = .ok e.form.layout
      ∧ o.allRules read e.form.layout = .ok rules
      ∧ o.providedValues read = .ok e.provided
      ∧ Evaluator.ofRules .default rules = .ok e.form.evaluator
      ∧ o.outcomes e.form.evaluator e.values = .ok e.outcomes := by
  simp only [evaluation, bind_eq_ok, mapError_eq_ok, pure_eq_ok, Except.ok.injEq]
  constructor
  · rintro ⟨layout, hlayout, rules, hrules, provided, hprovided, evaluator, hevaluator, outcomes,
      houtcomes, rfl⟩
    exact ⟨rules, hlayout, hrules, hprovided, hevaluator, houtcomes⟩
  · rintro ⟨rules, hlayout, hrules, hprovided, hevaluator, houtcomes⟩
    exact ⟨_, hlayout, rules, hrules, _, hprovided, _, hevaluator, _, houtcomes, rfl⟩

/-- The form of an evaluation starts. -/
theorem start_of_evaluation (h : o.evaluation read = .ok e) :
    ∃ s, e.form.start e.provided = .ok s := by
  obtain ⟨rules, _, _, _, hevaluator, _⟩ := evaluation_eq_ok.mp h
  exact Form.start_succeeds (Evaluator.wellTyped_of_ofRules Registry.default_speaks hevaluator) _

/-- The lines that `evaluate` prints on an evaluation and the state in which its form starts. -/
def report (o : EvaluateOptions) (e : Evaluation) (s : FormState) : List String :=
  if o.form then e.lines ++ e.form.lines s else e.lines

/-- What `evaluate` logs while the form starts, if it is to be reported. -/
def formWarnings (o : EvaluateOptions) (e : Evaluation) : List Warning :=
  if o.form then e.form.startWarnings e.provided else []

/-- What `evaluate` does: either something fails and nothing is printed, or the report is printed. -/
theorem perform_cases (o : EvaluateOptions) (read : FileReader) :
    (∃ error, o.evaluation read = .error error
      ∧ o.perform read = { log := o.warnings read, error := some error })
    ∨ ∃ e s, o.evaluation read = .ok e ∧ e.form.start e.provided = .ok s
      ∧ o.perform read = {
        log := o.warnings read ++ o.formWarnings e
        printed := printedLines (o.report e s) } := by
  cases h : o.evaluation read with
  | error error => exact .inl ⟨error, rfl, by simp [perform, h, Output.after]⟩
  | ok e =>
    obtain ⟨s, hs⟩ := start_of_evaluation h
    refine .inr ⟨e, s, rfl, hs, ?_⟩
    cases hform : o.form <;>
      simp [perform, Evaluation.output, report, formWarnings, h, hs, hform, Output.after]

theorem saved_perform (o : EvaluateOptions) (read : FileReader) : (o.perform read).saved = none := by
  obtain ⟨error, _, hperform⟩ | ⟨e, s, _, _, hperform⟩ := o.perform_cases read
  · rw [hperform]
  · rw [hperform]

end EvaluateOptions

end FormRules
