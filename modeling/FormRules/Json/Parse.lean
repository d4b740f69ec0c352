-- SUMMARY: The node that a text holds, with every fault that reading or skipping it can meet.
import FormRules.Json.Node
import FormRules.Json.Numeral
import FormRules.Json.Quotation

/-!
# Parsing

A text is turned into a node once, before anybody knows what will be read from it. Parsing goes on
as long as a value can at least be skipped; at a spot where neither reading nor skipping gets
further the node ends as broken, and what follows is not looked at.
-/

namespace FormRules.Json

/-- How many containers may stand inside each other for a reader. -/
def deepestNesting : Nat := 127

namespace Parse

private def fault (m : Malformation) (offset : Nat) : Fault := ⟨.malformed m, offset⟩

/-- A spot at which reading and skipping fail alike. -/
private def brokenNode (m : Malformation) (offset : Nat) : Node :=
  .broken (fault m offset) (fault m offset)

private def brokenItems (m : Malformation) (offset : Nat) : Items :=
  .broken (fault m offset) (fault m offset)

private def brokenMembers (m : Malformation) (offset : Nat) : Members :=
  .broken (fault m offset) (fault m offset)

/-- A word of fixed letters. -/
def word (result : Scalar) : List Char → Cursor → Node × Option Cursor
  | [], c => (.scalar (.ok result) c.offset, some c)
  | letter :: letters, c =>
    match c.rest with
    | [] => (brokenNode .endInValue c.offset, none)
    | x :: rest =>
      if x = letter then word result letters ⟨rest, c.offset + 1⟩
      else (brokenNode .expectedWord (c.offset + 1), none)

def numeral (c : Cursor) : Node × Option Cursor :=
  match Numeral.scan c with
  | .ok (n, next) => (.scalar ((n.number next.offset).map .number) next.offset, some next)
  | .error (read, skip) => (.broken read skip, none)

/-- A string whose opening quote is behind. -/
def quotation (c : Cursor) : Node × Option Cursor :=
  match Quotation.scan c with
  | .closed content next => (.scalar (content.map .text) next.offset, some next)
  | .broken read skip => (.broken read skip, none)

/-- The fault of entering a container that stands inside `depth` others. -/
def tooDeep (depth : Nat) (c : Cursor) : Option Fault :=
  if deepestNesting ≤ depth then some (fault .nestedTooDeep c.peek) else none

mutual

/-- The value at a cursor, inside `depth` containers, and the place after it if the text goes on. -/
def value : Nat → Nat → Cursor → Node × Option Cursor
  | 0, _, c => (brokenNode .nestedTooDeep c.offset, none)
  | fuel + 1, depth, c =>
    let c := c.skipBlanks
    match c.rest with
    | [] => (brokenNode .endInValue c.offset, none)
    | first :: rest =>
      let behind : Cursor := ⟨rest, c.offset + 1⟩
      if first = 'n' then word .null ['u', 'l', 'l'] behind
      else if first = 't' then word (.bool true) ['r', 'u', 'e'] behind
      else if first = 'f' then word (.bool false) ['a', 'l', 's', 'e'] behind
      else if first = '"' then quotation behind
      else if first = '-' ∨ first.isDigit then numeral c
      else if first = '[' then
        let (found, next) := items fuel (depth + 1) behind
        (.list c.offset (tooDeep depth c) found, next)
      else if first = '\x7b' then
        let (found, next) := members fuel (depth + 1) behind
        (.object c.offset (tooDeep depth c) found, next)
      else (brokenNode .expectedValue c.peek, none)

/-- The elements of an array whose bracket is behind. -/
def items : Nat → Nat → Cursor → Items × Option Cursor
  | 0, _, c => (brokenItems .nestedTooDeep c.offset, none)
  | fuel + 1, depth, c =>
    let c := c.skipBlanks
    match c.rest with
    | [] => (brokenItems .endInList c.offset, none)
    | ']' :: rest => (.closed (c.offset + 1), some ⟨rest, c.offset + 1⟩)
    | _ => item fuel depth c

/-- An element and those after it. -/
def item : Nat → Nat → Cursor → Items × Option Cursor
  | 0, _, c => (brokenItems .nestedTooDeep c.offset, none)
  | fuel + 1, depth, c =>
    match value fuel depth c with
    | (found, none) => (.more found 0 none (brokenItems .endInList 0), none)
    | (found, some c) =>
      let c := c.skipBlanks
      match c.rest with
      | [] =>
        (.more found c.offset (some (fault .endInList c.offset)) (brokenItems .endInList c.offset),
          none)
      | ']' :: rest =>
        (.more found (c.offset + 1) none (.closed (c.offset + 1)), some ⟨rest, c.offset + 1⟩)
      | ',' :: rest =>
        let c := (Cursor.mk rest (c.offset + 1)).skipBlanks
        let surplus := some (fault .trailingCharacters c.peek)
        match c.rest with
        | [] => (.more found c.offset surplus (brokenItems .endInValue c.offset), none)
        | ']' :: _ =>
          let comma := fault .trailingComma c.peek
          (.more found c.offset (some comma) (.broken comma (fault .expectedValue c.peek)), none)
        | _ =>
          let (others, next) := item fuel depth c
          (.more found c.offset surplus others, next)
      | _ =>
        (.more found c.offset (some (fault .trailingCharacters c.peek))
          (brokenItems .expectedListEnd c.peek), none)

/-- The members of an object whose brace is behind. -/
def members : Nat → Nat → Cursor → Members × Option Cursor
  | 0, _, c => (brokenMembers .nestedTooDeep c.offset, none)
  | fuel + 1, depth, c =>
    let c := c.skipBlanks
    match c.rest with
    | [] => (brokenMembers .endInObject c.offset, none)
    | '\x7d' :: rest => (.closed (c.offset + 1), some ⟨rest, c.offset + 1⟩)
    | '"' :: rest => member fuel depth ⟨rest, c.offset + 1⟩
    | _ => (brokenMembers .keyNotText c.peek, none)

/-- A member, the opening quote of whose key is behind, and those after it. -/
def member : Nat → Nat → Cursor → Members × Option Cursor
  | 0, _, c => (brokenMembers .nestedTooDeep c.offset, none)
  | fuel + 1, depth, c =>
    match Quotation.scan c with
    | .broken read skip => (.broken read skip, none)
    | .closed key c =>
      let c := c.skipBlanks
      match c.rest with
      | [] => (.unvalued key c.offset (fault .endInObject c.offset), none)
      | ':' :: rest =>
        let keySettle := c.offset
        match value fuel depth ⟨rest, c.offset + 1⟩ with
        | (found, none) => (.more key keySettle found 0 (brokenMembers .endInObject 0), none)
        | (found, some c) =>
          let c := c.skipBlanks
          match c.rest with
          | [] => (.more key keySettle found c.offset (brokenMembers .endInObject c.offset), none)
          | '\x7d' :: rest =>
            (.more key keySettle found (c.offset + 1) (.closed (c.offset + 1)),
              some ⟨rest, c.offset + 1⟩)
          | ',' :: rest =>
            let settle := c.offset
            let c := (Cursor.mk rest (c.offset + 1)).skipBlanks
            match c.rest with
            | [] =>
              (.more key keySettle found settle
                (.broken (fault .endInValue c.offset) (fault .endInObject c.offset)), none)
            | '"' :: rest =>
              let (others, next) := member fuel depth ⟨rest, c.offset + 1⟩
              (.more key keySettle found settle others, next)
            | '\x7d' :: _ =>
              (.more key keySettle found settle
                (.broken (fault .trailingComma c.peek) (fault .keyNotText c.peek)), none)
            | _ => (.more key keySettle found settle (brokenMembers .keyNotText c.peek), none)
          | _ =>
            (.more key keySettle found c.offset (brokenMembers .expectedObjectEnd c.peek), none)
      | '\x7d' :: _ => (.unvalued key (c.offset + 1) (fault .expectedColon c.peek), none)
      | _ => (.unvalued key c.offset (fault .expectedColon c.peek), none)

end

end Parse

/-- What a text holds: the node at its front, and the fault of other things after it. -/
structure Source where
  root : Node
  surplus : Option Fault

/-- The node that a text holds. Every character calls for at most three steps inside each other. -/
def Source.ofText (source : String) : Source :=
  let start := Cursor.ofText source
  match Parse.value (3 * start.rest.length + 3) 0 start with
  | (root, none) => ⟨root, none⟩
  | (root, some next) =>
    let next := next.skipBlanks
    ⟨root, if next.rest.isEmpty then none else some ⟨.malformed .trailingCharacters, next.peek⟩⟩

end FormRules.Json
