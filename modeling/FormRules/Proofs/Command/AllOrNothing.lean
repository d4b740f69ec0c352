-- SUMMARY: A command that fails prints nothing, and leaves every file as it is.
import FormRules.Proofs.Command.Evaluation

/-!
# All or nothing

Whatever the files hold, `evaluate` either succeeds or fails with nothing printed: everything that
can fail comes before the first line. `extract` prints or writes its rules only once it has them.
Neither leaves a trace of a failure but on the standard error (`failed_commands_leave_no_trace`).
-/

namespace FormRules

/-- The layout of an extraction cannot be loaded, or its rules cannot be extracted. -/
def ExtractOptions.Fails (o : ExtractOptions) (read : FileReader) (error : CommandError) : Prop :=
  o.layout.load read = .error error
    ∨ ∃ l, o.layout.load read = .ok l ∧ o.layout.extract l = .error error

/-- An extraction that fails logs its warnings and ends with that error. No other ends so. -/
theorem ExtractOptions.perform_eq_error_iff {o : ExtractOptions} {read : FileReader}
    {error : CommandError} :
    o.perform read = { log := o.layout.warnings read, error := some error }
      ↔ o.Fails read error := by
  unfold ExtractOptions.perform ExtractOptions.content ExtractOptions.Fails
  cases hlayout : o.layout.load read with
  | error e => simp [Output.after]
  | ok l =>
    cases hrules : o.layout.extract l with
    | error e => simp [hrules, Output.after]
    | ok rules => cases houtput : o.output <;> simp [hrules, Output.after]

/-- Let the files be read in any way. `evaluate` leaves them as they are, and exits with 0, or with 1
and nothing on the standard output. `extract` without a layout or without its rules exits with 1,
prints nothing on the standard output, and leaves all files as they are too; unless it is verbose, it
prints its warnings and then the error on the standard error. -/
theorem failed_commands_leave_no_trace {σ : Type} (fs : FileSystem σ) (verbose : Bool)
    (read : FileReader) (d : σ) :
    (∀ o : EvaluateOptions, ∃ exit,
      fs.commit verbose ((Command.evaluate o).perform read) d = (exit, d)
        ∧ (exit.code = 0 ∨ exit.code = 1 ∧ exit.stdout? = some ""))
    ∧ ∀ (o : ExtractOptions) (error : CommandError), o.Fails read error →
      ∃ exit, fs.commit verbose ((Command.extract o).perform read) d = (exit, d)
        ∧ exit.code = 1 ∧ exit.stdout? = some ""
        ∧ (verbose = false → exit.stderr? = some (Exit.logText (o.layout.warnings read)
          ++ ("\nError: " ++ error.message ++ "\n"))) := by
  constructor
  · intro o
    refine ⟨_, fs.commit_of_saved_eq_none (o.saved_perform read) verbose d, ?_⟩
    obtain ⟨error, _, hperform⟩ | ⟨e, s, _, _, hperform⟩ := o.perform_cases read
    · rw [hperform]
      exact .inr ⟨rfl, rfl⟩
    · rw [hperform]
      exact .inl rfl
  · intro o error hfails
    have hperform := ExtractOptions.perform_eq_error_iff.mpr hfails
    refine ⟨.ofOutput verbose { log := o.layout.warnings read, error := some error } none, ?_, rfl,
      rfl, ?_⟩
    · rw [Command.perform, hperform, fs.commit_of_saved_eq_none rfl]
    · rintro rfl
      rfl

/-- A field without a name, whose value mentions maps: no rules are extracted, and the rules that were
saved before stay as they are. -/
theorem failed_commands_leave_no_trace_of_nameless_field :
    let value : Json := .object [("actual_value", .text "yes"), ("maps", .null)]
    let field : Json := .object [("data_type", .text "pick_list"), ("pick_list_values", .list [value])]
    let layout : Json := .object [("sections", .list [.object [("fields", .list [field])]])]
    let d := Directory.ofList [("layout.json", layout.compact), ("rules.json", "[]\n")]
    let o : ExtractOptions := { layout := { input := "layout.json" }, output := some "rules.json" }
    let error : CommandError := .extraction (.missingKey "api_name" (.field 0 0))
    o.Fails d.read error
      ∧ (∃ exit, Directory.fileSystem.commit false ((Command.extract o).perform d.read) d = (exit, d)
        ∧ exit.code = 1 ∧ exit.stdout? = some ""
        ∧ exit.stderr? = some (Exit.logText (o.layout.warnings d.read)
          ++ ("\nError: " ++ error.message ++ "\n")))
      ∧ ∃ exit, Directory.fileSystem.commit false
          ((Command.evaluate { layout := o.layout, form := true }).perform d.read) d = (exit, d)
        ∧ (exit.code = 0 ∨ exit.code = 1 ∧ exit.stdout? = some "") := by
  intro value field layout d o error
  have hfails : o.Fails d.read error := ExtractOptions.perform_eq_error_iff.mp (by decide +kernel)
  obtain ⟨hevaluate, hextract⟩ :=
    failed_commands_leave_no_trace Directory.fileSystem false d.read d
  obtain ⟨exit, hcommit, hcode, hstdout, hstderr⟩ := hextract o error hfails
  exact ⟨hfails, ⟨exit, hcommit, hcode, hstdout, hstderr rfl⟩, hevaluate _⟩

end FormRules
