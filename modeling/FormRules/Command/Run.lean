-- SUMMARY: What a command logs, prints, writes and fails with.
import FormRules.Command.Basic
import FormRules.Extraction.Warnings
import FormRules.Form.View
import FormRules.Form.Warnings

/-!
# Running a command

A command is a function of the files that it reads. It logs warnings, prints a text, may write one
file, and may end with an error; what was logged and printed before the error stays. `Command.run`
ties this to a file system.
-/

namespace FormRules

/-! ## Errors -/

/-- Why a file of rules or values cannot be used. -/
inductive FileContentError where
  | unavailable (error : FileError)
  | unreadable (failure : Json.Failure) (source : String)
  deriving DecidableEq, Repr, Inhabited

def FileContentError.valuesMessage : FileContentError → String
  | unavailable error => error.message
  | unreadable failure source => failure.textIn source

def FileContentError.rulesMessage (path : String) : FileContentError → String
  | unavailable error => "Could not access rule file '" ++ path ++ "': " ++ error.message
  | unreadable failure source => "Rule serialization failed: " ++ failure.textIn source

/-- Why a command fails. -/
inductive CommandError where
  | layout (error : LoadError)
  | extraction (error : LayoutError)
  | rules (path : String) (error : FileContentError)
  | values (path : String) (error : FileContentError)
  | compilation (error : CompileError)
  | evaluation (error : EvaluationError)
  | form (error : EvaluationError)
  | output (path : String) (error : FileError)
  deriving DecidableEq, Repr, Inhabited

def CommandError.message : CommandError → String
  | layout e => "Failed to load layout: " ++ e.message
  | extraction e => "Extraction failed: " ++ e.message
  | rules path e => "Failed to load rules from '" ++ path ++ "': " ++ e.rulesMessage path
  | values path e => "Failed to load form values from '" ++ path ++ "': " ++ e.valuesMessage
  | compilation e => "Rule compilation failed: " ++ e.message
  | evaluation e => "Evaluation failed: " ++ e.message
  | form e => "Form state failed: " ++ e.message
  | output path e =>
    "Failed to write rules: " ++ (FileContentError.unavailable e).rulesMessage path

/-! ## Files -/

/-- Read a file that holds JSON. -/
def readFile (read : FileReader) (path : String)
    (ofText : String → Except Json.Failure α) : Except FileContentError α :=
  match read path with
  | .error e => .error (.unavailable e)
  | .ok source => (ofText source).mapError (.unreadable · source)

def LayoutOptions.load (o : LayoutOptions) (read : FileReader) : Except CommandError Layout :=
  (Layout.ofFile o.input (read o.input)).mapError .layout

def LayoutOptions.extract (o : LayoutOptions) (l : Layout) : Except CommandError (List Rule) :=
  (o.extractor.extract l).mapError .extraction

/-- What is logged while the rules of the layout are extracted, if it can be loaded. -/
def LayoutOptions.warnings (o : LayoutOptions) (read : FileReader) : List Warning :=
  match o.load read with
  | .ok l => o.extractor.warnings l
  | .error _ => []

/-! ## Extracting -/

def ExtractOptions.content (o : ExtractOptions) (read : FileReader) : Except CommandError String := do
  let layout ← o.layout.load read
  let rules ← o.layout.extract layout
  return RuleSet.fileText o.pretty rules

/-! ## Evaluating -/

/-- What `evaluate` works with once everything is read and compiled. -/
structure Evaluation where
  form : Form
  provided : FormValues
  outcomes : List Outcome

namespace EvaluateOptions

/-- The rules to evaluate: those of a file or those extracted, then those of the layout itself. -/
def allRules (o : EvaluateOptions) (read : FileReader) (l : Layout) :
    Except CommandError (List Rule) := do
  let rules ← match o.rules with
    | some path => (readFile read path RuleSet.ofText).mapError (.rules path)
    | none => o.layout.extract l
  return rules ++ l.rules

/-- The values that the caller provides. -/
def providedValues (o : EvaluateOptions) (read : FileReader) : Except CommandError FormValues :=
  match o.values with
  | some path => (readFile read path FormValues.ofText).mapError (.values path)
  | none => .ok Table.empty

/-- Evaluate the rules that are asked for: all of them unless updated fields are named. -/
def outcomes (o : EvaluateOptions) (e : Evaluator) (values : FormValues) :
    Except EvaluationError (List Outcome) :=
  if o.updated.isEmpty then e.evaluate values else e.evaluateUpdated values o.updated

/-- Read, compile and evaluate. Provided values stand over the initial values. -/
def evaluation (o : EvaluateOptions) (read : FileReader) : Except CommandError Evaluation := do
  let layout ← o.layout.load read
  let rules ← o.allRules read layout
  let provided ← o.providedValues read
  let values := (layout.initialValues provided).mergedWith provided
  let evaluator ← (Evaluator.ofRules .default rules).mapError .compilation
  let outcomes ← (o.outcomes evaluator values).mapError .evaluation
  return { form := ⟨layout, evaluator⟩, provided, outcomes }

end EvaluateOptions

/-! ## Reports -/

/-- The lines on an outcome: the verdict with its reason, and an effect a line. -/
def Outcome.lines (o : Outcome) : List String :=
  ("  -> Rule " ++ o.ruleIndex.repr ++ " " ++ (if o.fulfilled then "fulfilled" else "rejected")
      ++ ": " ++ o.reason)
    :: o.effects.map fun effect => "       " ++ effect.toJson.compact

def Evaluation.lines (e : Evaluation) : List String :=
  ("Evaluated " ++ e.outcomes.length.repr ++ " of " ++ e.form.evaluator.rules.length.repr
      ++ " rules")
    :: e.outcomes.flatMap Outcome.lines

namespace Form

/-- How a report says whether something is shown. -/
def visibilityWord (visible : Bool) : String := if visible then "shown" else "hidden"

def fieldLine (f : Form) (s : FormState) (apiName : String) : String :=
  "      " ++ apiName ++ " = " ++ (s.values.get? apiName).getD "unset" ++ " ("
    ++ visibilityWord (f.isFieldVisible s apiName) ++ ")"

/-- The lines on a section and its named fields. -/
def sectionLines (f : Form) (s : FormState) (held : Section) : List String :=
  ("  [" ++ visibilityWord (f.isShown s held) ++ "] " ++ held.id.getD "<unnamed>")
    :: (held.fields.filterMap (·.apiName)).map (f.fieldLine s)

/-- The line that says whether the form is valid. -/
def validityLine (f : Form) (s : FormState) : String :=
  let missing := f.missingRequired s
  if missing.isEmpty then "Form is valid"
  else "Form is invalid, missing: " ++ String.intercalate ", " missing

def lines (f : Form) (s : FormState) : List String :=
  "Form state:" :: f.layout.sections.flatMap (f.sectionLines s) ++ [f.validityLine s]

end Form

/-- Lines as a text; each ends with a line break. -/
def printedLines (lines : List String) : String := String.join (lines.map (· ++ "\n"))

/-! ## Commands -/

/-- What a command does: the warnings that it logs, the text that it prints, the file that it writes,
and the error with which it ends. -/
structure Output where
  log : List Warning := []
  printed : String := ""
  saved : Option (String × String) := none
  error : Option CommandError := none
  deriving DecidableEq, Inhabited

/-- Log some warnings, and then do what an output says. -/
def Output.after (log : List Warning) (o : Output) : Output := { o with log := log ++ o.log }

@[simp] theorem Output.after_nil (o : Output) : o.after [] = o := rfl

@[simp] theorem Output.saved_after (log : List Warning) (o : Output) :
    (o.after log).saved = o.saved := rfl

@[simp] theorem Output.error_after (log : List Warning) (o : Output) :
    (o.after log).error = o.error := rfl

def ExtractOptions.perform (o : ExtractOptions) (read : FileReader) : Output :=
  .after (o.layout.warnings read) <|
    match o.content read with
    | .error e => { error := some e }
    | .ok content =>
      match o.output with
      | some path => { saved := some (path, content) }
      | none => { printed := content }

/-- Report on an evaluation, and on the form that starts with the provided values if that is asked
for. -/
def Evaluation.output (withForm : Bool) (e : Evaluation) : Output :=
  if withForm then
    .after (e.form.startWarnings e.provided) <|
      match e.form.start e.provided with
      | .error error => { printed := printedLines e.lines, error := some (.form error) }
      | .ok state => { printed := printedLines (e.lines ++ e.form.lines state) }
  else { printed := printedLines e.lines }

namespace EvaluateOptions

/-- What is logged while the rules are extracted. Those of a file were extracted before. -/
def warnings (o : EvaluateOptions) (read : FileReader) : List Warning :=
  match o.rules with
  | some _ => []
  | none => o.layout.warnings read

def perform (o : EvaluateOptions) (read : FileReader) : Output :=
  .after (o.warnings read) <|
    match o.evaluation read with
    | .error e => { error := some e }
    | .ok e => e.output o.form

end EvaluateOptions

def Command.perform (read : FileReader) : Command → Output
  | extract o => o.perform read
  | evaluate o => o.perform read

/-! ## Runs -/

/-- How a run of the program ends. -/
inductive Exit where
  /-- The arguments ask for nothing that there is. -/
  | usage
  | information (topic : Topic)
  /-- A command was run: whether it was to log more than warnings, what it printed on the standard
  output, the warnings that it logged, and the message of the error with which it ended. -/
  | ran (verbose : Bool) (stdout : String) (log : List Warning) (message : Option String)
  deriving DecidableEq, Repr, Inhabited

namespace Exit

def code : Exit → Nat
  | usage => 2
  | information _ => 0
  | ran _ _ _ none => 0
  | ran _ _ _ (some _) => 1

/-- What is printed on the standard output; information has no fixed words. -/
def stdout? : Exit → Option String
  | usage => some ""
  | information _ => none
  | ran _ stdout _ _ => some stdout

/-- What is printed about an error; a usage error has no fixed words. -/
def errorText? : Exit → Option String
  | usage => none
  | information _ => some ""
  | ran _ _ _ none => some ""
  | ran _ _ _ (some message) => some ("\nError: " ++ message ++ "\n")

/-- The lines of a log. -/
def logText (log : List Warning) : String := printedLines (log.map Warning.text)

/-- What is printed on the standard error: the log and then the error. The log of a verbose run has
no fixed words. -/
def stderr? : Exit → Option String
  | ran true _ _ _ => none
  | ran false stdout log message =>
    (ran false stdout log message).errorText?.map (logText log ++ ·)
  | exit => exit.errorText?

/-- The end of a command whose file, if any, could be written or not. -/
def ofOutput (verbose : Bool) (o : Output) (writing : Option CommandError) : Exit :=
  ran verbose o.printed o.log ((o.error.or writing).map CommandError.message)

end Exit

variable {σ : Type}

/-- Carry out what a command does in a state of a file system. -/
def FileSystem.commit (fs : FileSystem σ) (verbose : Bool) (o : Output) (d : σ) : Exit × σ :=
  match o.saved with
  | none => (.ofOutput verbose o none, d)
  | some (path, content) =>
    let (error, d) := fs.write d path content
    (.ofOutput verbose o (error.map (.output path)), d)

/-- Run a command line in a state of a file system. -/
def Command.run (fs : FileSystem σ) (env : Environment) (args : List String) (d : σ) : Exit × σ :=
  match Command.ofArguments env args with
  | .misuse => (.usage, d)
  | .information topic => (.information topic, d)
  | .run verbose command => fs.commit verbose (command.perform (fs.read d)) d

end FormRules
