-- SUMMARY: JSON values, their numbers, and the sorted form of objects.
import FormRules.Table
import FormRules.Json.Decimal

/-!
# JSON values

An object is a list of entries in the order in which it is written. Where order carries no meaning
an object is brought into its sorted form: keys in increasing order, the last entry of each key.
-/

namespace FormRules

/-- A JSON number: a natural number below `2 ^ 64`, the negative of one up to `2 ^ 63`, or else a
double. -/
inductive Number where
  | natural (n : Nat)
  | negative (n : Nat)
  | double (d : Double)
  deriving DecidableEq, Repr, Inhabited

def Number.text : Number → String
  | .natural n => n.repr
  | .negative n => "-" ++ n.repr
  | .double d => d.text

inductive Json where
  | null
  | bool (b : Bool)
  | number (n : Number)
  | text (s : String)
  | list (items : List Json)
  | object (entries : List (String × Json))
  deriving Repr, Inhabited

namespace Json

/-- Entries in increasing key order, the last one of each key. -/
def sortedEntries (entries : List (String × α)) : List (String × α) :=
  (Table.ofList entries).entries

/-- The entries of an object; any other value has none. -/
def entries : Json → List (String × Json)
  | object es => es
  | _ => []

/-- The elements of an array; any other value has none. -/
def items : Json → List Json
  | list xs => xs
  | _ => []

/-- The value under a key of an object; of several the last. -/
def get? (j : Json) (key : String) : Option Json := (Table.ofList j.entries).get? key

/-- The entry of a value that may be absent; an absent value has no entry. -/
def entry? (key : String) (value : Option Json) : List (String × Json) :=
  match value with
  | some j => [(key, j)]
  | none => []

@[simp] theorem entry?_some (key : String) (j : Json) : entry? key (some j) = [(key, j)] := rfl

@[simp] theorem entry?_none (key : String) : entry? key none = [] := rfl

end Json

end FormRules
