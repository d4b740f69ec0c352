-- SUMMARY: The two subcommands and the command lines that ask for them, or for help or the version.
import FormRules.Command.Arguments
import FormRules.Extraction
import FormRules.Layout.Loading

/-!
# Commands

`extract` writes the rules of a layout, `evaluate` evaluates rules against form values. The layout
and the output file may be named by the environment; the command line wins over it. A command line
may ask for help or for the version instead; which words answer it is left to the program.
-/

namespace FormRules

/-- What the environment says: the layout file and the output file. -/
structure Environment where
  input : Option String := none
  output : Option String := none
  deriving DecidableEq, Repr, Inhabited

/-- The layout to work on and how its rules are extracted. -/
structure LayoutOptions where
  input : String := Layout.defaultPath
  dataTypes : List String := []
  fulfillDependents : Bool := false
  deriving DecidableEq, Repr, Inhabited

/-- What `extract` is asked for. -/
structure ExtractOptions where
  layout : LayoutOptions := {}
  output : Option String := none
  pretty : Bool := false
  deriving DecidableEq, Repr, Inhabited

/-- What `evaluate` is asked for. -/
structure EvaluateOptions where
  layout : LayoutOptions := {}
  values : Option String := none
  rules : Option String := none
  updated : List String := []
  form : Bool := false
  deriving DecidableEq, Repr, Inhabited

/-- What the program is asked for. -/
inductive Command where
  | extract (options : ExtractOptions)
  | evaluate (options : EvaluateOptions)
  deriving DecidableEq, Repr, Inhabited

def LayoutOptions.extractor (o : LayoutOptions) : Extractor :=
  { ({} : Extractor).withDataTypes o.dataTypes with
    policy := if o.fulfillDependents then .fulfill else .ignore }

/-- What the program can be asked to tell about itself. -/
inductive Topic where
  | version
  /-- How to use the program or one of its subcommands. -/
  | help (subcommand : Option String)
  deriving DecidableEq, Repr, Inhabited

/-- What a command line asks for. A verbose run logs more than warnings. -/
inductive Invocation where
  | run (verbose : Bool) (command : Command)
  | information (topic : Topic)
  | misuse
  deriving DecidableEq, Repr, Inhabited

/-- What arguments ask for that are not read to their end, of the program or a subcommand. -/
def Invocation.ofStop (subcommand : Option String) : ArgumentStop → Invocation
  | .misuse => misuse
  | .help => information (.help subcommand)
  | .version => information .version

namespace Command

def programSpecs : List OptionSpec := [
  { name := "verbose", letter := some 'v', kind := .flag },
  { name := "help", letter := some 'h', kind := .help },
  { name := "version", letter := some 'V', kind := .version }]

def sharedSpecs : List OptionSpec := [
  { name := "verbose", letter := some 'v', kind := .flag },
  { name := "help", letter := some 'h', kind := .help },
  { name := "input", letter := some 'i', kind := .single },
  { name := "data-type", kind := .many },
  { name := "fulfill-dependents", kind := .flag }]

def extractSpecs : List OptionSpec := sharedSpecs ++ [
  { name := "output", letter := some 'o', kind := .single },
  { name := "pretty", kind := .flag }]

def evaluateSpecs : List OptionSpec := sharedSpecs ++ [
  { name := "values", kind := .single },
  { name := "rules", kind := .single },
  { name := "updated", kind := .many },
  { name := "form", kind := .flag }]

/-- The layout options among the options given. -/
def layoutOptions (env : Environment) (given : List Occurrence) : LayoutOptions where
  input := ((Occurrence.valueOf? given "input").or env.input).getD Layout.defaultPath
  dataTypes := Occurrence.valuesOf given "data-type"
  fulfillDependents := Occurrence.has given "fulfill-dependents"

/-- The extraction that options ask for. -/
def extraction (env : Environment) (given : List Occurrence) : Command :=
  extract {
    layout := layoutOptions env given
    output := (Occurrence.valueOf? given "output").or env.output
    pretty := Occurrence.has given "pretty" }

/-- The evaluation that options ask for. -/
def evaluation (env : Environment) (given : List Occurrence) : Command :=
  evaluate {
    layout := layoutOptions env given
    values := Occurrence.valueOf? given "values"
    rules := Occurrence.valueOf? given "rules"
    updated := Occurrence.valuesOf given "updated"
    form := Occurrence.has given "form" }

/-- What the arguments of a subcommand ask for: options, and nothing else. -/
def ofOptions (verbose : Bool) (subcommand : String) (specs : List OptionSpec)
    (command : List Occurrence → Command) (args : List ArgumentToken) : Invocation :=
  match OptionSpec.read specs [] args with
  | .error stop => .ofStop (some subcommand) stop
  | .ok (given, []) => .run (verbose || Occurrence.has given "verbose") (command given)
  | .ok (_, _ :: _) => .misuse

/-- What the arguments of `help` ask for: the help on the program, or on one subcommand. -/
def ofHelp : List ArgumentToken → Invocation
  | [] => .information (.help none)
  | [.plain name] =>
    if ["extract", "evaluate", "help"].contains name then .information (.help (some name))
    else .misuse
  | _ => .misuse

/-- What a command line asks for: options of the program itself, then a subcommand. -/
def ofArguments (env : Environment) (args : List String) : Invocation :=
  match OptionSpec.read programSpecs [] (args.map ArgumentToken.ofText) with
  | .error stop => .ofStop none stop
  | .ok (given, .plain name :: rest) =>
    let verbose := Occurrence.has given "verbose"
    if name = "extract" then ofOptions verbose name extractSpecs (extraction env) rest
    else if name = "evaluate" then ofOptions verbose name evaluateSpecs (evaluation env) rest
    else if name = "help" then ofHelp rest
    else .misuse
  | .ok _ => .misuse

/-- The files that a command reads. -/
def inputs : Command → List String
  | extract o => [o.layout.input]
  | evaluate o => o.layout.input :: (o.rules.toList ++ o.values.toList)

end Command

end FormRules
