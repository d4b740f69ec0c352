-- SUMMARY: JSON trees that remember where their parts end and what is wrong with the text.
import FormRules.Json.Failure

/-!
# Nodes

A node is a JSON value as it stands in a text, sound or damaged. Reading and skipping are two ways
through it: a reader looks at every part and stops at the first fault, while a part that nobody asks
for is only skipped, which overlooks some faults and words others differently. A node therefore
holds both faults of a damaged spot, and readers on nodes are functions on trees that need no text.

A value in memory is a node too (`Node.ofJson`): an undamaged one with its keys in order.
-/

namespace FormRules.Json

mutual

/-- A value as it stands in a text.

* `scalar` ends at `stop`; its content may be readable only by skipping it;
* `list` and `object` begin at `start`; reading a container that is nested too deep fails;
* `broken` is a spot where the text does not go on as a value. -/
inductive Node where
  | scalar (content : Except Fault Scalar) (stop : Nat)
  | list (start : Nat) (tooDeep : Option Fault) (items : Items)
  | object (start : Nat) (tooDeep : Option Fault) (members : Members)
  | broken (read skip : Fault)

/-- The elements of an array, up to its end or to where it breaks off. A reader that stops after an
element leaves the text at `settle`, and fails with `surplus` if the array does not end there. -/
inductive Items where
  | closed (stop : Nat)
  | broken (read skip : Fault)
  | more (value : Node) (settle : Nat) (surplus : Option Fault) (rest : Items)

/-- The members of an object, up to its end or to where it breaks off. A reader that stops after a
key leaves the text at `keySettle`, one that stops after a value at `settle`. A key without a
colon after it ends the object. -/
inductive Members where
  | closed (stop : Nat)
  | broken (read skip : Fault)
  | unvalued (key : Except Fault String) (keySettle : Nat) (fault : Fault)
  | more (key : Except Fault String) (keySettle : Nat) (value : Node) (settle : Nat)
      (rest : Members)

end

instance : Inhabited Node := ⟨.scalar (.ok .null) 0⟩

/-! ## Height -/

mutual

/-- The number of values on the longest way into a node. -/
def Node.height : Node → Nat
  | .scalar _ _ => 1
  | .list _ _ items => items.height + 1
  | .object _ _ members => members.height + 1
  | .broken _ _ => 1

def Items.height : Items → Nat
  | .closed _ => 0
  | .broken _ _ => 0
  | .more value _ _ rest => max value.height rest.height

def Members.height : Members → Nat
  | .closed _ => 0
  | .broken _ _ => 0
  | .unvalued _ _ _ => 0
  | .more _ _ value _ rest => max value.height rest.height

end

/-! ## Skipping -/

mutual

/-- Pass over a value that nobody reads. -/
def Node.skip : Node → Except Fault Unit
  | .scalar _ _ => .ok ()
  | .list _ _ items => items.skip
  | .object _ _ members => members.skip
  | .broken _ skip => .error skip

def Items.skip : Items → Except Fault Unit
  | .closed _ => .ok ()
  | .broken _ skip => .error skip
  | .more value _ _ rest => do
    value.skip
    rest.skip

def Members.skip : Members → Except Fault Unit
  | .closed _ => .ok ()
  | .broken _ skip => .error skip
  | .unvalued _ _ fault => .error fault
  | .more _ _ value _ rest => do
    value.skip
    rest.skip

end

/-! ## Reading a value of any shape -/

/-- The step of a failure whose key could not be read. -/
def unknownKey : Segment := .key "?"

mutual

def Node.value : Node → Except Failure Json
  | .scalar (.ok s) _ => .ok s.toJson
  | .scalar (.error fault) _ => .error (.ofFault fault)
  | .list _ (some fault) _ => .error (.ofFault fault)
  | .list _ none items => (items.values 0).map .list
  | .object _ (some fault) _ => .error (.ofFault fault)
  | .object _ none members => members.values.map fun es => .object (sortedEntries es)
  | .broken read _ => .error (.ofFault read)

/-- The values of the elements from a given index on. -/
def Items.values (index : Nat) : Items → Except Failure (List Json)
  | .closed _ => .ok []
  | .broken read _ => .error (.ofFault read)
  | .more value _ _ rest => do
    let x ← value.value.mapError (·.under (.index index))
    let xs ← rest.values (index + 1)
    .ok (x :: xs)

/-- The entries of an object in the order of the text. -/
def Members.values : Members → Except Failure (List (String × Json))
  | .closed _ => .ok []
  | .broken read _ => .error ((Failure.ofFault read).under unknownKey)
  | .unvalued (.error fault) _ _ => .error ((Failure.ofFault fault).under unknownKey)
  | .unvalued (.ok _) _ fault => .error (.ofFault fault)
  | .more (.error fault) _ _ _ _ => .error ((Failure.ofFault fault).under unknownKey)
  | .more (.ok key) _ value _ rest => do
    let x ← value.value.mapError (·.under (.key key))
    let xs ← rest.values
    .ok ((key, x) :: xs)

end

/-! ## Values in memory -/

/-- The members of a list of entries. -/
def Members.ofList : List (String × Node) → Members
  | [] => .closed 0
  | (key, value) :: rest => .more (.ok key) 0 value 0 (ofList rest)

mutual

def Node.ofJson : Json → Node
  | .null => .scalar (.ok .null) 0
  | .bool b => .scalar (.ok (.bool b)) 0
  | .number n => .scalar (.ok (.number n)) 0
  | .text s => .scalar (.ok (.text s)) 0
  | .list xs => .list 0 none (Items.ofJson xs.length xs)
  | .object es => .object 0 none (.ofList (sortedEntries (Members.nodes es)))

/-- The elements of an array of `count` values. -/
def Items.ofJson (count : Nat) : List Json → Items
  | [] => .closed 0
  | x :: rest =>
    .more (Node.ofJson x) 0 (if rest.isEmpty then none else some ⟨.tooMany count, 0⟩)
      (Items.ofJson count rest)

/-- The entries of an object with their values as nodes. -/
def Members.nodes : List (String × Json) → List (String × Node)
  | [] => []
  | (key, x) :: rest => (key, Node.ofJson x) :: Members.nodes rest

end

@[simp] theorem Members.nodes_eq_map (es : List (String × Json)) :
    Members.nodes es = es.map fun e => (e.1, Node.ofJson e.2) := by
  induction es with
  | nil => rfl
  | cons e rest ih => simp [Members.nodes, ih]

end FormRules.Json
