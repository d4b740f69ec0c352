-- SUMMARY: Conditions as expressions: values, fields read, display, and dependence on updates.
import FormRules.Table

/-!
# Conditions

A compiled condition is an expression over equality, conjunction and disjunction, whose leaves are
given values and the values of fields.
-/

namespace FormRules

/-- A value that evaluation deals with. -/
inductive Value where
  | text (s : String)
  | bool (b : Bool)
  | null
  deriving DecidableEq, Repr, Inhabited

/-- A value as it is shown; the characters of a text stand for themselves. -/
def Value.shown : Value → String
  | text s => "\"" ++ s ++ "\""
  | bool true => "true"
  | bool false => "false"
  | null => "null"

inductive Expr where
  | and (left right : Expr)
  | or (left right : Expr)
  | equal (left right : Expr)
  | literal (v : Value)
  | field (apiName : String)
  deriving DecidableEq, Repr, Inhabited

namespace Expr

/-! ## Fields -/

/-- The fields that an expression reads, from left to right. -/
def fields : Expr → List String
  | and l r => l.fields ++ r.fields
  | or l r => l.fields ++ r.fields
  | equal l r => l.fields ++ r.fields
  | literal _ => []
  | field apiName => [apiName]

/-- The names of the fields that an expression reads, each once, in increasing order. -/
def requiredFields (e : Expr) : List String := (Table.ofList (e.fields.map (·, ()))).keys

/-- Whether an expression is a field with one of the given names. -/
def isFieldAmong (updated : List String) : Expr → Bool
  | field apiName => updated.contains apiName
  | _ => false

/-- Whether an update of the given fields can alter the outcome. An equality is touched through a
field that it compares, a conjunction through both sides, a disjunction through one. The truth
values that stand for an empty conjunction and an empty disjunction are touched always and never. -/
def isTouchedBy (updated : List String) : Expr → Bool
  | equal l r => l.isFieldAmong updated || r.isFieldAmong updated
  | and l r => l.isTouchedBy updated && r.isTouchedBy updated
  | or l r => l.isTouchedBy updated || r.isTouchedBy updated
  | literal (.bool b) => b
  | literal _ => false
  | field _ => false

/-! ## Display -/

/-- How strongly an expression binds. -/
def precedence : Expr → Nat
  | or _ _ => 1
  | and _ _ => 2
  | equal _ _ => 4
  | literal _ => 9
  | field _ => 9

end Expr

/-- Put a text in parentheses if it binds less strongly than what surrounds it. -/
def parenthesized (own surrounding : Nat) (s : String) : String :=
  if own < surrounding then "(" ++ s ++ ")" else s

namespace Expr

/-- An expression as it is shown inside an operator of a given precedence. -/
def shownWithin (surrounding : Nat) : Expr → String
  | or l r => parenthesized 1 surrounding (l.shownWithin 1 ++ " OR " ++ r.shownWithin 1)
  | and l r => parenthesized 2 surrounding (l.shownWithin 2 ++ " AND " ++ r.shownWithin 2)
  | equal l r => parenthesized 4 surrounding (l.shownWithin 4 ++ " == " ++ r.shownWithin 4)
  | literal v => parenthesized 9 surrounding v.shown
  | field apiName => parenthesized 9 surrounding ("$" ++ apiName)

def shown (e : Expr) : String := e.shownWithin 0

end Expr

end FormRules
