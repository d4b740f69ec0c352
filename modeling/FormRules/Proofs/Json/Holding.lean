-- SUMMARY: Undamaged nodes and the values that they hold.
import FormRules.Proofs.Json.Sorted

/-!
# What nodes hold

An undamaged node holds one value, whatever its places in the text are. The entries of objects stand
in the order of the text. A node that holds a value can be read as a whole.
-/

namespace FormRules.Json

mutual

/-- An undamaged node holds a value. -/
inductive Node.Holds : Node → Json → Prop where
  | scalar {s : Scalar} {j : Json} (h : s.toJson = j) (stop : Nat) :
      Node.Holds (.scalar (.ok s) stop) j
  | list {found : Items} {xs : List Json} (h : Items.Hold found xs) (start : Nat) :
      Node.Holds (.list start none found) (.list xs)
  | object {found : Members} {es : List (String × Json)} (h : Members.Hold found es) (start : Nat) :
      Node.Holds (.object start none found) (.object es)

inductive Items.Hold : Items → List Json → Prop where
  | nil (stop : Nat) : Items.Hold (.closed stop) []
  | cons {value : Node} {x : Json} {rest : Items} {xs : List Json} (h : Node.Holds value x)
      (hrest : Items.Hold rest xs) (settle : Nat) (surplus : Option Fault) :
      Items.Hold (.more value settle surplus rest) (x :: xs)

inductive Members.Hold : Members → List (String × Json) → Prop where
  | nil (stop : Nat) : Members.Hold (.closed stop) []
  | cons {value : Node} {x : Json} {rest : Members} {es : List (String × Json)}
      (h : Node.Holds value x) (hrest : Members.Hold rest es) (key : String)
      (keySettle settle : Nat) :
      Members.Hold (.more (.ok key) keySettle value settle rest) ((key, x) :: es)

end

namespace Node.Holds

variable {node : Node}

theorem eq_text {s : String} (h : node.Holds (.text s)) :
    ∃ stop, node = .scalar (.ok (.text s)) stop := by
  cases h with
  | @scalar found _ h stop =>
    cases found with
    | text _ => cases h; exact ⟨stop, rfl⟩
    | null | bool _ | number _ => cases h

theorem eq_list {xs : List Json} (h : node.Holds (.list xs)) :
    ∃ start found, node = .list start none found ∧ found.Hold xs := by
  cases h with
  | @scalar found _ h _ => cases found <;> cases h
  | list h start => exact ⟨start, _, rfl, h⟩

theorem eq_object {es : List (String × Json)} (h : node.Holds (.object es)) :
    ∃ start found, node = .object start none found ∧ found.Hold es := by
  cases h with
  | @scalar found _ h _ => cases found <;> cases h
  | object h start => exact ⟨start, _, rfl, h⟩

end Node.Holds

mutual

/-- A node that holds a value is read, by a reader of any shape, as the sorted form of the value. -/
theorem Node.Holds.value_eq {node : Node} {j : Json} : node.Holds j → node.value = .ok j.sorted
  | @Node.Holds.scalar s _ h _ => by subst h; cases s <;> rfl
  | .list h _ => by rw [Node.value, h.values_eq 0]; rfl
  | .object h _ => by rw [Node.value, h.values_eq]; rfl

theorem Items.Hold.values_eq {found : Items} {xs : List Json} (h : found.Hold xs) (index : Nat) :
    found.values index = .ok (sortedItems xs) :=
  match h with
  | .nil _ => rfl
  | .cons h hrest _ _ => by
    simp [Items.values, h.value_eq, hrest.values_eq (index + 1)]

theorem Members.Hold.values_eq {found : Members} {es : List (String × Json)} :
    found.Hold es → found.values = .ok (sortedValues es)
  | .nil _ => rfl
  | .cons h hrest key _ _ => by
    simp [Members.values, h.value_eq, hrest.values_eq]

end

theorem Node.Holds.exists_value {node : Node} {j : Json} (h : node.Holds j) :
    ∃ v, node.value = .ok v :=
  ⟨_, h.value_eq⟩

end FormRules.Json
