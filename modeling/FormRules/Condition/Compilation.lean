-- SUMMARY: From rule functions to expressions, through a registry of named parsers.
import FormRules.Condition.Expr
import FormRules.Rule.Basic

/-!
# Compilation

A registry gives each function name a parser, which makes an expression of the arguments of a call.
Three parsers are built in: `is` compares two operands, `and` and `or` join conditions. A name may
be registered as an alias of one of them, or with a parser of its own.
-/

namespace FormRules

/-! ## Errors -/

/-- Why a call is no condition. -/
inductive CompileError where
  | unknownFunction (func : String)
  | arityMismatch (func : String) (expected found : Nat)
  | expectedFunction (func : String) (index : Nat)
  | expectedOperand (func : String) (index : Nat)
  deriving DecidableEq, Repr, Inhabited

def CompileError.message : CompileError → String
  | unknownFunction func => "Rule function '" ++ func ++ "' is not registered"
  | arityMismatch func expected found =>
    "Rule function '" ++ func ++ "' requires " ++ expected.repr ++ " arguments, but received "
      ++ found.repr
  | expectedFunction func index =>
    "Rule function '" ++ func ++ "' expects nested functions, but argument " ++ index.repr
      ++ " is an operand"
  | expectedOperand func index =>
    "Rule function '" ++ func ++ "' expects operands, but argument " ++ index.repr
      ++ " is a function"

/-! ## Parsers -/

/-- An argument whose expression is known, with what it was in the rule. -/
inductive ParsedArgument where
  | condition (e : Expr)
  | operand (e : Expr)
  deriving DecidableEq, Repr, Inhabited

/-- Makes an expression of the arguments of a call. -/
abbrev Parser := List ParsedArgument → Except CompileError Expr

/-- A function that needs no registration of its own. -/
inductive Builtin where
  | is
  | and
  | or
  deriving DecidableEq, Repr, Inhabited

namespace Builtin

def name : Builtin → String
  | is => "is"
  | and => "and"
  | or => "or"

def ofName? (name : String) : Option Builtin :=
  if name = "is" then some is else if name = "and" then some and
  else if name = "or" then some or else none

/-- The operand at an argument's place. -/
def wantOperand (func : String) (index : Nat) : ParsedArgument → Except CompileError Expr
  | .operand e => .ok e
  | .condition _ => .error (.expectedOperand func index)

/-- Two operands, and nothing else. -/
def operandPair (func : String) : List ParsedArgument → Except CompileError (Expr × Expr)
  | [l, r] => do
    let l ← wantOperand func 0 l
    let r ← wantOperand func 1 r
    return (l, r)
  | args => .error (.arityMismatch func 2 args.length)

/-- Conditions, and nothing else, from a given index on. -/
def conditions (func : String) (index : Nat) : List ParsedArgument → Except CompileError (List Expr)
  | [] => .ok []
  | .operand _ :: _ => .error (.expectedFunction func index)
  | .condition e :: rest => (conditions func (index + 1) rest).map (e :: ·)

/-- Join conditions from left to right; no conditions at all are the given truth value. -/
def joined (join : Expr → Expr → Expr) (empty : Bool) : List Expr → Expr
  | [] => .literal (.bool empty)
  | first :: rest => rest.foldl join first

def parser : Builtin → Parser
  | is, args => (operandPair "is" args).map fun (l, r) => .equal l r
  | and, args => (conditions "and" 0 args).map (joined .and true)
  | or, args => (conditions "or" 0 args).map (joined .or false)

end Builtin

/-- The parser that has the same expression for all arguments. -/
def Parser.constant (e : Expr) : Parser := fun _ => .ok e

/-! ## Registries -/

abbrev Registry := Table Parser

namespace Registry

def default : Registry :=
  Table.ofList ([Builtin.is, Builtin.and, Builtin.or].map fun b => (b.name, b.parser))

/-- Make a name behave like a built-in function. The name of no built-in function makes no alias. -/
def withAlias (registry : Registry) (name builtin : String) : Registry :=
  match Builtin.ofName? builtin with
  | some b => registry.insert name b.parser
  | none => registry

/-- Give a name a parser of its own. -/
def withParser (registry : Registry) (name : String) (parser : Parser) : Registry :=
  registry.insert name parser

end Registry

/-! ## Calls -/

/-- A given text wins over a field, and both have to be nonempty; nothing else has a value. -/
def Operand.toExpr (o : Operand) : Expr :=
  match o.value.filter (!·.isEmpty), o.field.filter (!·.isEmpty) with
  | some value, _ => .literal (.text value)
  | none, some apiName => .field apiName
  | none, none => .literal .null

mutual

/-- The expression of a call: the name is looked up, then the arguments are compiled from left to
right, then the parser has its say. -/
def Call.compile (registry : Registry) : Call → Except CompileError Expr
  | ⟨func, args⟩ =>
    match registry.get? func with
    | none => .error (.unknownFunction func)
    | some parser =>
      match compileArguments registry args with
      | .error e => .error e
      | .ok parsed => parser parsed

def Argument.compile (registry : Registry) : Argument → Except CompileError ParsedArgument
  | .call c =>
    match c.compile registry with
    | .error e => .error e
    | .ok e => .ok (.condition e)
  | .operand o => .ok (.operand o.toExpr)

/-- The expressions of arguments, up to the first that has none. -/
def compileArguments (registry : Registry) :
    List Argument → Except CompileError (List ParsedArgument)
  | [] => .ok []
  | a :: rest =>
    match a.compile registry with
    | .error e => .error e
    | .ok parsed =>
      match compileArguments registry rest with
      | .error e => .error e
      | .ok others => .ok (parsed :: others)

end

/-! ## Rules -/

/-- A rule whose condition is an expression. `index` is its position in the list of rules. -/
structure CompiledRule where
  index : Nat
  condition : Expr
  fulfilled : List Call
  rejected : List Call
  deriving Inhabited

def Rule.compile (registry : Registry) (index : Nat) (r : Rule) :
    Except CompileError CompiledRule :=
  (r.condition.compile registry).map fun condition =>
    { index, condition, fulfilled := r.fulfilled, rejected := r.rejected }

/-- Compile rules in order, the first of which has the given index. -/
def RuleSet.compileFrom (registry : Registry) (index : Nat) :
    List Rule → Except CompileError (List CompiledRule)
  | [] => .ok []
  | r :: rest => do
    let compiled ← r.compile registry index
    let others ← compileFrom registry (index + 1) rest
    return compiled :: others

def RuleSet.compile (registry : Registry) (rules : List Rule) :
    Except CompileError (List CompiledRule) :=
  compileFrom registry 0 rules

end FormRules
