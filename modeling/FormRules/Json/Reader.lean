-- SUMMARY: Readers, which turn nodes into values of the program, and how they are put together.
import FormRules.Json.Parse

/-!
# Readers

A reader turns a node into a value or says why it cannot. Readers are put together from readers of
the parts; whatever goes wrong in a part is reported with the part's path, and a failure whose
offset is open gets it from the container that gives up.

A record has two written forms: an object with the record's keys, and an array of its values in a
fixed order. A `Slot` is one key of a record with what may be left out in either form.
-/

namespace FormRules.Json

/-- The failure of a reader that wants something else than what stands there. -/
def Node.unexpected (wanted : Wanted) : Node → Failure
  | .scalar (.ok s) stop => .placed (.wrongType (.scalar s) wanted) stop
  | .scalar (.error fault) _ => .ofFault fault
  | .list start _ _ => .placed (.wrongType .list wanted) start
  | .object start _ _ => .placed (.wrongType .object wanted) start
  | .broken read _ => .ofFault read

/-- Turns a node into a value or says why it cannot. -/
abbrev Reader (α : Type) := Node → Except Failure α

namespace Reader

/-! ## Single values -/

/-- Any value, with the entries of objects in their sorted form. -/
def any : Reader Json := Node.value

def text : Reader String
  | .scalar (.ok (.text s)) _ => .ok s
  | node => .error (node.unexpected .text)

def bool : Reader Bool
  | .scalar (.ok (.bool b)) _ => .ok b
  | node => .error (node.unexpected .bool)

def map (f : α → β) (r : Reader α) : Reader β := fun node => (r node).map f

/-- A value that may be `null`. -/
def optional (r : Reader α) : Reader (Option α)
  | .scalar (.ok .null) _ => .ok none
  | node => (r node).map some

/-! ## Parts -/

/-- Read a part of a container, which leaves the text at `settle` if the part cannot be read. -/
def part (r : Reader α) (step : Segment) (value : Node) (settle : Nat) : Except Failure α :=
  (r value).mapError fun f => (f.under step).placedAt settle

/-- The elements of an array, from a given index on. -/
def items (r : Reader α) (index : Nat) : Items → Except Failure (List α)
  | .closed _ => .ok []
  | .broken read _ => .error (.ofFault read)
  | .more value settle _ rest => do
    let x ← r.part (.index index) value settle
    let xs ← items r (index + 1) rest
    .ok (x :: xs)

def list (r : Reader α) : Reader (List α)
  | .list _ (some fault) _ => .error (.ofFault fault)
  | .list _ none found => r.items 0 found
  | node => .error (node.unexpected .list)

/-- The members of an object that all have the same meaning, in the order of the text. -/
def members (r : Reader α) : Members → Except Failure (List (String × α))
  | .closed _ => .ok []
  | .broken read _ => .error ((Failure.ofFault read).under unknownKey)
  | .unvalued (.error fault) _ _ => .error ((Failure.ofFault fault).under unknownKey)
  | .unvalued (.ok _) _ fault => .error (.ofFault fault)
  | .more (.error fault) _ _ _ _ => .error ((Failure.ofFault fault).under unknownKey)
  | .more (.ok key) _ value settle rest => do
    let x ← r.part (.key key) value settle
    let xs ← members r rest
    .ok ((key, x) :: xs)

/-- An object whose keys are data; of a repeated key the last value stays. -/
def table (r : Reader α) : Reader (Table α)
  | .object _ (some fault) _ => .error (.ofFault fault)
  | .object _ none found => (r.members found).map Table.ofList
  | node => .error (node.unexpected .object)

/-! ## Records -/

end Reader

/-- What may be left out of a record. -/
inductive Presence where
  /-- Neither form may lack the value. -/
  | required
  /-- The object form may lack the key. -/
  | optional
  /-- Both forms may lack the value. -/
  | defaulted
  deriving DecidableEq, Repr, Inhabited

/-- One key of a record, whose value is stored in a record of type `σ`. -/
structure Slot (σ : Type) where
  key : String
  presence : Presence
  read : Reader (σ → σ)

namespace Slot

/-- A value that every record has. -/
def required (key : String) (r : Reader α) (store : α → σ → σ) : Slot σ :=
  ⟨key, .required, r.map store⟩

/-- A value that a record may lack, or have as `null`. -/
def optional (key : String) (r : Reader α) (store : Option α → σ → σ) : Slot σ :=
  ⟨key, .optional, (Reader.optional r).map store⟩

/-- A value that a record may lack in either form. -/
def defaulted (key : String) (r : Reader α) (store : α → σ → σ) : Slot σ :=
  ⟨key, .defaulted, r.map store⟩

end Slot

namespace Reader

/-- The first required key that is not among those seen. -/
def missing? (slots : List (Slot σ)) (seen : List String) : Option String :=
  (slots.find? fun slot => slot.presence = .required ∧ slot.key ∉ seen).map (·.key)

/-- Read the members of a record in its object form. Keys that the record does not have are passed
over; a key of the record comes once. -/
def recordMembers (slots : List (Slot σ)) (seen : List String) (record : σ) :
    Members → Except Failure σ
  | .closed stop =>
    match missing? slots seen with
    | some key => .error (.placed (.missingKey key) stop)
    | none => .ok record
  | .broken read _ => .error ((Failure.ofFault read).under unknownKey)
  | .unvalued (.error fault) _ _ => .error ((Failure.ofFault fault).under unknownKey)
  | .unvalued (.ok key) settle fault =>
    if key ∈ seen then .error (.placed (.repeatedKey key) settle) else .error (.ofFault fault)
  | .more (.error fault) _ _ _ _ => .error ((Failure.ofFault fault).under unknownKey)
  | .more (.ok key) keySettle value settle rest =>
    match slots.find? (·.key = key) with
    | none =>
      match value.skip with
      | .error fault => .error ((Failure.ofFault fault).under (.key key))
      | .ok () => recordMembers slots seen record rest
    | some slot =>
      if key ∈ seen then .error (.placed (.repeatedKey key) keySettle)
      else do
        let store ← slot.read.part (.key key) value settle
        recordMembers slots (key :: seen) (store record) rest

/-- Read the elements of a record in its array form, from a given slot on. After the last slot the
array has to end. -/
def recordItems (name : String) (size : Nat) (index : Nat) (record : σ) :
    List (Slot σ) → Items → Except Failure σ
  | [], _ => .ok record
  | _ :: _, .broken read _ => .error (.ofFault read)
  | slot :: slots, .closed stop =>
    if slot.presence = .defaulted then
      recordItems name size (index + 1) record slots (.closed stop)
    else .error (.placed (.tooFew index name size) stop)
  | slot :: slots, .more value settle surplus rest => do
    let store ← slot.read.part (.index index) value settle
    match slots, surplus with
    | [], some fault => .error (.ofFault fault)
    | _, _ => recordItems name size (index + 1) (store record) slots rest

/-- A record in either of its forms; `blank` stands for what is left out. -/
def record (name : String) (slots : List (Slot σ)) (blank : σ) : Reader σ
  | .list _ (some fault) _ => .error (.ofFault fault)
  | .list _ none found => recordItems name slots.length 0 blank slots found
  | .object _ (some fault) _ => .error (.ofFault fault)
  | .object _ none found => recordMembers slots [] blank found
  | node => .error (node.unexpected (.record name))

/-! ## Alternatives -/

/-- Try one reader and then another on a value that is sound as a whole. What stopped either is not
told. -/
def either (name : String) (first second : Reader α) : Reader α := fun node =>
  match node.value with
  | .error f => .error f
  | .ok _ =>
    match first node with
    | .ok x => .ok x
    | .error _ =>
      match second node with
      | .ok x => .ok x
      | .error _ => .error (.unplaced (.noVariant name))

/-! ## Recursion -/

/-- Let a reader use itself on the parts of a node, at most `n` times inside each other. -/
def unfold (step : Reader α → Reader α) : Nat → Reader α
  | 0 => fun _ => .error (.unplaced (.malformed .nestedTooDeep))
  | n + 1 => step (unfold step n)

/-- The reader that uses itself on the parts of a node. The height of the node says how often. -/
def fix (step : Reader α → Reader α) : Reader α := fun node => unfold step node.height node

/-! ## Documents -/

def fromJson (r : Reader α) (j : Json) : Except Failure α := r (Node.ofJson j)

/-- Read the value at the front of a text and ignore what follows. -/
def fromFront (r : Reader α) (source : String) : Except Failure α := r (Source.ofText source).root

/-- Read a text that holds one value and nothing else. -/
def fromText (r : Reader α) (source : String) : Except Failure α := do
  let held := Source.ofText source
  let x ← r held.root
  match held.surplus with
  | some fault => .error (.ofFault fault)
  | none => .ok x

end Reader

def ofText (source : String) : Except Failure Json := Reader.any.fromText source

end FormRules.Json
