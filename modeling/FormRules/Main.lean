-- SUMMARY: The program: arguments, environment and files of the real system.
import FormRules.Command.Run

/-!
# The program

Everything that is decided is decided by `Command`. Here the files that a command reads are read,
and what it prints and writes is printed and written.
-/

namespace FormRules

/-- An error of the operating system as a file error. -/
def FileError.ofSystem : IO.Error → FileError
  | .noFileOrDirectory _ _ _ => .notFound
  | .inappropriateType _ code reason => .refused reason code.toNat
  | .permissionDenied _ code reason => .refused reason code.toNat
  | .resourceExhausted _ code reason => .refused reason code.toNat
  | .otherError code reason => .refused reason code.toNat
  | e => .refused (toString e) 0

def readSystemFile (path : String) : IO (Except FileError String) := do
  try
    let bytes ← IO.FS.readBinFile path
    match String.fromUTF8? bytes with
    | some content => return .ok content
    | none => return .error .notText
  catch e => return .error (.ofSystem e)

def writeSystemFile (path content : String) : IO (Option FileError) := do
  try
    IO.FS.writeFile path content
    return none
  catch e => return some (.ofSystem e)

def Output.saveOnSystem (o : Output) : IO (Option CommandError) :=
  match o.saved with
  | none => return none
  | some (path, content) => return (← writeSystemFile path content).map (CommandError.output path)

def Command.runOnSystem (verbose : Bool) (command : Command) : IO Exit := do
  let contents ← command.inputs.mapM fun path => return (path, ← readSystemFile path)
  let output := command.perform fun path =>
    match contents.find? (·.1 = path) with
    | some (_, content) => content
    | none => .error .notFound
  return .ofOutput verbose output (← output.saveOnSystem)

/-- What is told about a topic. -/
def Topic.lines : Topic → List String
  | .version => ["jouken 0.1.0"]
  | .help _ => [
    "Usage: jouken-cli [--verbose] <extract | evaluate | help> [options]",
    "extract:  --input, --data-type, --fulfill-dependents, --output, --pretty",
    "evaluate: --input, --data-type, --fulfill-dependents, --values, --rules, --updated, --form"]

/-- Print what a run prints. Of a verbose run only the warnings are logged. -/
def Exit.print : Exit → IO Unit
  | usage => IO.eprint (printedLines (Topic.help none).lines)
  | information topic => IO.print (printedLines topic.lines)
  | ran verbose stdout log message => do
    IO.eprint (logText log)
    IO.print stdout
    IO.eprint ((ran verbose stdout log message).errorText?.getD "")

end FormRules

open FormRules in
def main (args : List String) : IO UInt32 := do
  let env : Environment := {
    input := ← IO.getEnv "JOUKEN_INPUT"
    output := ← IO.getEnv "JOUKEN_OUTPUT" }
  let exit ← match Command.ofArguments env args with
    | .misuse => pure Exit.usage
    | .information topic => pure (.information topic)
    | .run verbose command => command.runOnSystem verbose
  exit.print
  return exit.code.toUInt32
