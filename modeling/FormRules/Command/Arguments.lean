-- SUMMARY: Command line arguments: tokens, options, and where their reading stops.

/-!
# Arguments

Options have one or two names: a long one after two dashes and perhaps a letter after one. Some take
a value, attached with `=` or as the next argument, which must not begin with a dash. Letters may
stand together after one dash; the first that takes a value takes all that follows it. Arguments are
read from left to right up to the first that is no option. An option that is not known or comes too
often is a misuse at once, and one that asks for information is answered at once, whatever follows.
-/

namespace FormRules

/-- What an option is for: whether it takes a value, and whether it may come more than once. -/
inductive OptionKind where
  | flag
  | single
  | many
  /-- Asks for help and ends the reading. -/
  | help
  /-- Asks for the version and ends the reading. -/
  | version
  deriving DecidableEq, Repr, Inhabited

def OptionKind.takesValue : OptionKind → Bool
  | single | many => true
  | flag | help | version => false

/-- An option of the program or of a subcommand. -/
structure OptionSpec where
  name : String
  letter : Option Char := none
  kind : OptionKind
  deriving DecidableEq, Repr, Inhabited

/-- An option that was given, with its value if it takes one. -/
structure Occurrence where
  name : String
  value : Option String := none
  deriving DecidableEq, Repr, Inhabited

/-- An argument by its form. -/
inductive ArgumentToken where
  /-- Two dashes alone: no option follows. -/
  | terminator
  | long (name : String) (value : Option String)
  | letters (cs : List Char)
  | plain (s : String)
  deriving DecidableEq, Repr, Inhabited

/-- The form of an argument. A single dash is a plain argument. -/
def ArgumentToken.ofText (s : String) : ArgumentToken :=
  match s.toList with
  | ['-', '-'] => terminator
  | '-' :: '-' :: rest =>
    let value :=
      match rest.dropWhile (· != '=') with
      | [] => none
      | _ :: v => some (String.ofList v)
    long (String.ofList (rest.takeWhile (· != '='))) value
  | '-' :: c :: rest => letters (c :: rest)
  | _ => plain s

/-- Why arguments are not read any further. -/
inductive ArgumentStop where
  | misuse
  | help
  | version
  deriving DecidableEq, Repr, Inhabited

namespace OptionSpec

/-- Add an option, with its value if it takes one, to those given before it. -/
def add (spec : OptionSpec) (value : Option String) (given : List Occurrence) :
    Except ArgumentStop (List Occurrence) :=
  match spec.kind with
  | .help => .error .help
  | .version => .error .version
  | .many => .ok (given ++ [⟨spec.name, value⟩])
  | .flag | .single =>
    if given.any (·.name = spec.name) then .error .misuse else .ok (given ++ [⟨spec.name, value⟩])

/-- Add the options that letters after one dash stand for. The last may still want its value. -/
def readLetters (specs : List OptionSpec) (given : List Occurrence) :
    List Char → Except ArgumentStop (List Occurrence × Option OptionSpec)
  | [] => .ok (given, none)
  | c :: cs =>
    match specs.find? (·.letter = some c) with
    | none => .error .misuse
    | some spec =>
      if spec.kind.takesValue then
        match cs with
        | [] => .ok (given, some spec)
        | '=' :: v => (spec.add (some (String.ofList v)) given).map (·, none)
        | v => (spec.add (some (String.ofList v)) given).map (·, none)
      else (spec.add none given).bind fun given => readLetters specs given cs

/-- The options that arguments give up to the first that is no option, added to those given before,
and the arguments from there on. -/
def read (specs : List OptionSpec) (given : List Occurrence) :
    List ArgumentToken → Except ArgumentStop (List Occurrence × List ArgumentToken)
  | [] => .ok (given, [])
  | .terminator :: rest => if rest.isEmpty then .ok (given, []) else .error .misuse
  | .plain s :: rest => .ok (given, .plain s :: rest)
  | .long name value :: rest =>
    match specs.find? (·.name = name) with
    | none => .error .misuse
    | some spec =>
      match spec.kind.takesValue, value with
      | false, none => (spec.add none given).bind fun given => read specs given rest
      | false, some _ => .error .misuse
      | true, some v => (spec.add (some v) given).bind fun given => read specs given rest
      | true, none =>
        match rest with
        | .plain v :: rest => (spec.add (some v) given).bind fun given => read specs given rest
        | _ => .error .misuse
  | .letters cs :: rest =>
    match readLetters specs given cs with
    | .error stop => .error stop
    | .ok (given, none) => read specs given rest
    | .ok (given, some spec) =>
      match rest with
      | .plain v :: rest => (spec.add (some v) given).bind fun given => read specs given rest
      | _ => .error .misuse

end OptionSpec

namespace Occurrence

def valuesOf (given : List Occurrence) (name : String) : List String :=
  (given.filter (·.name = name)).filterMap (·.value)

/-- The value of an option that comes at most once. -/
def valueOf? (given : List Occurrence) (name : String) : Option String :=
  (valuesOf given name).head?

def has (given : List Occurrence) (name : String) : Bool := given.any (·.name = name)

end Occurrence

end FormRules
