-- SUMMARY: Evaluating the rules that were extracted to a file is evaluating those of the layout.
import FormRules.Proofs.Command.Evaluation
import FormRules.Proofs.Extraction.Depth
import FormRules.Proofs.Extraction.Warnings
import FormRules.Proofs.File
import FormRules.Proofs.Rule.Saving

/-!
# Evaluating saved rules

Rules can be extracted to a file once and evaluated from there. `extract` leaves the layout as it is
and its rules in the file, and `evaluate` reads from the file the very rules that it would extract
itself. The rest of its run is the same on both ways. What tells them apart is that only a run that
extracts warns of the aimless maps of the layout (`saved_rules_are_evaluated_as_extracted`).
-/

namespace FormRules

variable {σ : Type}

/-! ## Runs that end alike -/

theorem Command.run_of_arguments {env : Environment} {args : List String} {verbose : Bool}
    {command : Command} (h : Command.ofArguments env args = .run verbose command)
    (fs : FileSystem σ) (d : σ) :
    Command.run fs env args d = fs.commit verbose (command.perform (fs.read d)) d := by
  simp [Command.run, h]

theorem printedLines_append (lines more : List String) :
    printedLines (lines ++ more) = printedLines lines ++ printedLines more := by
  simp [printedLines, String.join_append]

namespace Exit

/-- Two runs end alike, but that the second has logged further warnings first: they exit with one
code and print one text on the standard output, and on the standard error the second prints its
further warnings and then what the first prints. -/
structure EndsAlike (further : List Warning) (exit exit' : Exit) : Prop where
  code : exit.code = exit'.code
  stdout : exit.stdout? = exit'.stdout?
  stderr : ∃ text, exit.stderr? = some text ∧ exit'.stderr? = some (logText further ++ text)

theorem endsAlike_after (further : List Warning) (o : Output) (writing : Option CommandError) :
    EndsAlike further (.ofOutput false o writing) (.ofOutput false (o.after further) writing) := by
  constructor
  · rw [code_ofOutput, code_ofOutput, Output.error_after]
  · rfl
  · cases h : o.error.or writing <;>
      simp [ofOutput, Output.after, h, stderr?, errorText?, logText, printedLines_append,
        String.append_assoc]

end Exit

/-! ## Steps of the commands -/

namespace LayoutOptions

variable {o : LayoutOptions} {read read' : FileReader}

theorem load_congr (h : read o.input = read' o.input) : o.load read = o.load read' := by
  unfold load
  rw [h]

/-- A layout that is loaded was read. -/
theorem exists_read_of_load {l : Layout} (h : o.load read = .ok l) :
    ∃ content, read o.input = .ok content := by
  unfold load Layout.ofFile at h
  cases hread : read o.input with
  | error e => simp [hread] at h
  | ok content => exact ⟨content, rfl⟩

end LayoutOptions

namespace ExtractOptions

variable {x : ExtractOptions}

theorem content_eq_ok {read : FileReader} {content : String} : x.content read = .ok content ↔
    ∃ l rules, x.layout.load read = .ok l ∧ x.layout.extract l = .ok rules
      ∧ content = RuleSet.fileText x.pretty rules := by
  simp only [ExtractOptions.content, bind_eq_ok, pure_eq_ok, Except.ok.injEq, eq_comm (a := content)]
  constructor
  · rintro ⟨l, hload, rules, hrules, hcontent⟩
    exact ⟨l, rules, hload, hrules, hcontent⟩
  · rintro ⟨l, rules, hload, hrules, hcontent⟩
    exact ⟨l, hload, rules, hrules, hcontent⟩

/-- An extraction to a file that exits with 0 has found the rules of the layout and written them. -/
theorem saved_of_code_eq_zero {fs : FileSystem σ} {verbose : Bool} {file : String} {d d' : σ}
    {exit : Exit} (houtput : x.output = some file)
    (hrun : fs.commit verbose (x.perform (fs.read d)) d = (exit, d')) (hcode : exit.code = 0) :
    ∃ l rules, x.layout.load (fs.read d) = .ok l ∧ x.layout.extract l = .ok rules
      ∧ fs.write d file (RuleSet.fileText x.pretty rules) = (none, d') := by
  cases hcontent : x.content (fs.read d) with
  | error e =>
    have hsaved : (x.perform (fs.read d)).saved = none := by simp [perform, hcontent]
    rw [fs.commit_of_saved_eq_none hsaved] at hrun
    cases hrun
    simp [Exit.code_ofOutput, perform, hcontent] at hcode
  | ok content =>
    obtain ⟨l, rules, hload, hrules, rfl⟩ := content_eq_ok.mp hcontent
    have hsaved : (x.perform (fs.read d)).saved = some (file, RuleSet.fileText x.pretty rules) := by
      simp [perform, hcontent, houtput]
    obtain ⟨error, hwrite, rfl⟩ := FileSystem.commit_of_saved hsaved hrun
    cases error with
    | none => exact ⟨l, rules, hload, hrules, hwrite⟩
    | some e => simp [Exit.code_ofOutput, perform, hcontent, houtput] at hcode

end ExtractOptions

namespace EvaluateOptions

theorem providedValues_congr (o : EvaluateOptions) {read read' : FileReader}
    (h : ∀ path, o.values = some path → read path = read' path) :
    o.providedValues read = o.providedValues read' := by
  unfold providedValues
  split
  · next path hpath => simp only [readFile, h path hpath]
  · rfl

/-- What `evaluate` evaluates depends on the layout, the rules and the values that it reads, and on
nothing else in the files. -/
theorem evaluation_congr {o o' : EvaluateOptions} {read read' : FileReader}
    (hload : o.layout.load read = o'.layout.load read')
    (hrules : ∀ l, o'.layout.load read' = .ok l → o.allRules read l = o'.allRules read' l)
    (hvalues : o.providedValues read = o'.providedValues read')
    (hupdated : o.updated = o'.updated) : o.evaluation read = o'.evaluation read' := by
  have houtcomes : o.outcomes = o'.outcomes := by
    unfold outcomes
    rw [hupdated]
  unfold evaluation
  rw [hload, hvalues, houtcomes]
  cases h : o'.layout.load read' with
  | error e => rw [error_bind, error_bind]
  | ok l => rw [ok_bind, ok_bind, hrules l h]

/-- Options that ask for the same as others, but for the rules of a file in the place of those of
the layout. -/
structure TakesRulesFrom (stored : EvaluateOptions) (file : String) (direct : EvaluateOptions) :
    Prop where
  rules : stored.rules = some file
  extracted : direct.rules = none
  input : stored.layout.input = direct.layout.input
  values : stored.values = direct.values
  updated : stored.updated = direct.updated
  form : stored.form = direct.form

variable {stored direct : EvaluateOptions} {file : String} {l : Layout} {rules : List Rule}
  {read read' : FileReader}

/-- A run that extracts its rules warns of the aimless maps of the layout. -/
theorem warnings_eq (h : direct.rules = none) (hload : direct.layout.load read = .ok l)
    (hrules : direct.layout.extract l = .ok rules) :
    direct.warnings read = (direct.layout.extractor.aimlessMaps l).map .aimlessMap := by
  have hwarns := direct.layout.extractor.warns_extract l
  simpa only [warnings, h, LayoutOptions.warnings, hload] using
    hwarns.complete rules (mapError_eq_ok.mp hrules)

/-- With the extracted rules in the file, evaluating the layout is warning of its aimless maps and
then evaluating the file, whether the layout and the values are read before the file was written or
after. -/
theorem TakesRulesFrom.perform_eq (h : stored.TakesRulesFrom file direct)
    (hload : direct.layout.load read = .ok l) (hload' : direct.layout.load read' = .ok l)
    (hrules : direct.layout.extract l = .ok rules)
    (hfile : readFile read' file RuleSet.ofText = .ok rules)
    (hvalues : direct.providedValues read' = direct.providedValues read) :
    direct.perform read = .after ((direct.layout.extractor.aimlessMaps l).map .aimlessMap)
      (stored.perform read') := by
  have hevaluation : stored.evaluation read' = direct.evaluation read := by
    refine evaluation_congr ?_ (fun l' hl' => ?_) ?_ h.updated
    · rw [hload, ← hload']
      simp only [LayoutOptions.load, h.input]
    · cases hload.symm.trans hl'
      simp only [allRules, h.rules, h.extracted, hfile, hrules, mapError_ok]
    · rw [← hvalues]
      simp only [providedValues, h.values]
  have hsilent : stored.warnings read' = [] := by simp [warnings, h.rules]
  unfold perform
  rw [hevaluation, h.form, hsilent, warnings_eq h.extracted hload hrules, Output.after_nil]

end EvaluateOptions

/-! ## Both ways -/

/-- Let rules be extracted to a file, which keeps what is written to it and is not the layout itself.
Then `evaluate` on the rules of that file and `evaluate` on the layout, with the same options of
extraction, end alike and change no file, but that the latter first warns of each map of the layout
that says whether something is shown without saying what. Where the values are what they were before
the extraction, so does `evaluate` on the layout at that time. -/
theorem saved_rules_are_evaluated_as_extracted {fs : FileSystem σ} {env : Environment}
    {extraction evaluation direct : List String} {verbose : Bool} {x : ExtractOptions}
    {s o : EvaluateOptions} {file : String} {d d' : σ} {exit : Exit}
    (hextraction : Command.ofArguments env extraction = .run verbose (.extract x))
    (houtput : x.output = some file)
    (hrun : Command.run fs env extraction d = (exit, d')) (hcode : exit.code = 0)
    (hkeeps : fs.Keeps d file) (hspares : fs.Spares d file x.layout.input)
    (hevaluation : Command.ofArguments env evaluation = .run false (.evaluate s))
    (hdirect : Command.ofArguments env direct = .run false (.evaluate o))
    (hlayout : o.layout = x.layout) (hsame : s.TakesRulesFrom file o) :
    ∃ l exit₁ exit₂, x.layout.load (fs.read d) = .ok l
      ∧ Command.run fs env evaluation d' = (exit₁, d') ∧ Command.run fs env direct d' = (exit₂, d')
      ∧ exit₁.EndsAlike ((x.layout.extractor.aimlessMaps l).map .aimlessMap) exit₂
      ∧ ((∀ path, o.values = some path → fs.read d' path = fs.read d path) →
        Command.run fs env direct d = (exit₂, d)) := by
  have hextract := (Command.run_of_arguments hextraction fs d).symm.trans hrun
  obtain ⟨l, rules, hload, hrules, hwrite⟩ := x.saved_of_code_eq_zero houtput hextract hcode
  have hread : fs.read d' x.layout.input = fs.read d x.layout.input := by
    obtain ⟨content, hcontent⟩ := LayoutOptions.exists_read_of_load hload
    rw [hcontent]
    exact hspares _ _ _ hwrite hcontent
  have hload' : x.layout.load (fs.read d') = .ok l := (LayoutOptions.load_congr hread).trans hload
  have hfile : readFile (fs.read d') file RuleSet.ofText = .ok rules := by
    have hdepth := Extractor.nesting_of_extract (mapError_eq_ok.mp hrules)
    simp [readFile, hkeeps _ _ hwrite, RuleSet.ofText_fileText hdepth]
  rw [← hlayout] at hload hload' hrules ⊢
  have hafter := hsame.perform_eq hload' hload' hrules hfile rfl
  have hends := Exit.endsAlike_after ((o.layout.extractor.aimlessMaps l).map .aimlessMap)
    (s.perform (fs.read d')) none
  rw [← hafter] at hends
  refine ⟨l, _, _, hload, ?_, ?_, hends, fun hvalues => ?_⟩
  · rw [Command.run_of_arguments hevaluation]
    exact fs.commit_of_saved_eq_none (s.saved_perform _) false d'
  · rw [Command.run_of_arguments hdirect]
    exact fs.commit_of_saved_eq_none (o.saved_perform _) false d'
  · have hbefore := hsame.perform_eq hload hload' hrules hfile (o.providedValues_congr hvalues)
    rw [Command.run_of_arguments hdirect, hafter, ← hbefore]
    exact fs.commit_of_saved_eq_none (o.saved_perform _) false d

/-- A country that leaves one city on offer and hides something without a name, extracted with its
dependents and indented; the form is reported for a change of the country. -/
theorem saved_rules_are_evaluated_as_extracted_of_country :
    let city : Json := .object [("actual_value", .text "Berlin")]
    let map : Json := .object [("api_name", .text "city"), ("pick_list_values", .list [city])]
    let aimless : Json := .object [("visible", .bool false)]
    let value : Json := .object [("actual_value", .text "DE"), ("maps", .list [map, aimless])]
    let country : Json := .object [("api_name", .text "country"), ("data_type", .text "picklist"),
      ("pick_list_values", .list [value])]
    let layout : Json := .object [("sections", .list [.object [("fields", .list [country])]])]
    let rule : Rule := { condition := .is "country" "DE", fulfilled := [.allow "city" "Berlin"] }
    let d := Directory.ofList [("data/layout.json", layout.compact)]
    let d' := Directory.ofList [("data/layout.json", layout.compact),
      ("data/rules.json", RuleSet.fileText true [rule])]
    let options : LayoutOptions := {
      input := "data/layout.json", dataTypes := ["picklist"], fulfillDependents := true }
    let run := Command.run Directory.fileSystem {}
    let extraction := ["extract", "-i", "data/layout.json", "--data-type", "picklist",
      "--fulfill-dependents", "-o", "data/rules.json", "--pretty"]
    let evaluation := ["evaluate", "-i", "data/layout.json", "--rules", "data/rules.json",
      "--updated", "country", "--form"]
    let direct := ["evaluate", "-i", "data/layout.json", "--data-type", "picklist",
      "--fulfill-dependents", "--updated", "country", "--form"]
    run extraction d = (.ran false "" [.aimlessMap (.map 0 0 0 1)] none, d')
    ∧ ∃ l exit₁ exit₂, options.load d.read = .ok l
      ∧ run evaluation d' = (exit₁, d') ∧ run direct d' = (exit₂, d')
      ∧ exit₁.EndsAlike ((options.extractor.aimlessMaps l).map .aimlessMap) exit₂
      ∧ run direct d = (exit₂, d) := by
  intro city map aimless value country layout rule d d' options run extraction evaluation direct
  have hrun : run extraction d = (.ran false "" [.aimlessMap (.map 0 0 0 1)] none, d') := by
    decide +kernel
  have hplace : d.place ⟨"data/rules.json"⟩ = .ok { way := ["data", "rules.json"] } := rfl
  have hlocate : d.locate ⟨"data/layout.json"⟩ = .ok { way := ["data", "layout.json"] } := rfl
  obtain ⟨l, exit₁, exit₂, hload, hevaluation, hdirect, hends, hbefore⟩ :=
    saved_rules_are_evaluated_as_extracted
      (x := { layout := options, output := some "data/rules.json", pretty := true })
      (s := { layout := { input := "data/layout.json" }, rules := some "data/rules.json"
              updated := ["country"], form := true })
      (o := { layout := options, updated := ["country"], form := true })
      (show Command.ofArguments {} extraction = _ from rfl) rfl hrun rfl
      (Directory.keeps (by simp [hplace, Location.emptyFile]))
      (Directory.spares (by simp [hplace, options, hlocate]))
      (show Command.ofArguments {} evaluation = _ from rfl)
      (show Command.ofArguments {} direct = _ from rfl) rfl ⟨rfl, rfl, rfl, rfl, rfl, rfl⟩
  exact ⟨hrun, l, exit₁, exit₂, hload, hevaluation, hdirect, hends, hbefore (by simp)⟩

/-- Two ways in which evaluating saved rules and evaluating the layout differ. A map that shows
something without a name is warned of only by the run that extracts it. And a file that stays empty
whatever is written to it holds no rules. -/
theorem saved_rules_are_not_always_evaluated_as_extracted :
    let value : Json := .object [("actual_value", .text "yes"),
      ("maps", .list [.object [("visible", .bool true)]])]
    let field : Json := .object [("api_name", .text "member"), ("data_type", .text "pick_list"),
      ("pick_list_values", .list [value])]
    let layout : Json := .object [("sections", .list [.object [("fields", .list [field])]])]
    let rule : Rule := { condition := .is "member" "yes" }
    let d := Directory.ofList [("layout.json", layout.compact)]
    let d' := Directory.ofList [("layout.json", layout.compact),
      ("rules.json", RuleSet.fileText false [rule])]
    let run := fun args => Command.run Directory.fileSystem {} args
    let printed := printedLines ["Evaluated 1 of 1 rules",
      "  -> Rule 0 fulfilled: $member (was \"yes\") == \"yes\""]
    let warning : Warning := .aimlessMap (.map 0 0 0 0)
    (run ["extract", "-i", "layout.json", "--fulfill-dependents", "-o", "rules.json"] d
        = (.ran false "" [warning] none, d')
      ∧ run ["evaluate", "-i", "layout.json", "--rules", "rules.json"] d'
        = (.ran false printed [] none, d')
      ∧ run ["evaluate", "-i", "layout.json", "--fulfill-dependents"] d'
        = (.ran false printed [warning] none, d'))
    ∧ run ["extract", "-i", "layout.json", "-o", "/dev/null"] d = (.ran false "" [] none, d)
      ∧ (run ["evaluate", "-i", "layout.json", "--rules", "/dev/null"] d).1.code = 1
      ∧ (run ["evaluate", "-i", "layout.json"] d).1.code = 0 := by
  decide +kernel

end FormRules
