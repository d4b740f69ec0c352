-- SUMMARY: Nodes that hold a value as a text without repeated keys does.
import FormRules.Proofs.Json.DistinctKeys
import FormRules.Proofs.Json.Holding
import Mathlib.Data.List.Perm.Basic

/-!
# What nodes mirror

A node mirrors a value if it holds it, if no object repeats a key, and if it tells of every element
of an array whether others follow. Such a node differs from the node of the value in memory by its
places in the text and by the order of its members only, and has the same height.
-/

namespace FormRules.Json

/-! ## Mirroring -/

mutual

/-- A node holds a value without repeated keys, and marks each element after which others follow. -/
inductive Node.Mirrors : Node → Json → Prop where
  | scalar (s : Scalar) (stop : Nat) : Node.Mirrors (.scalar (.ok s) stop) s.toJson
  | list {found : Items} {xs : List Json} (h : Items.Mirror found xs) (start : Nat) :
      Node.Mirrors (.list start none found) (.list xs)
  | object {found : Members} {es : List (String × Json)} (h : Members.Mirror found es)
      (hkeys : (es.map (·.1)).Nodup) (start : Nat) :
      Node.Mirrors (.object start none found) (.object es)

inductive Items.Mirror : Items → List Json → Prop where
  | nil (stop : Nat) : Items.Mirror (.closed stop) []
  | cons {value : Node} {x : Json} {rest : Items} {xs : List Json} (h : Node.Mirrors value x)
      (hrest : Items.Mirror rest xs) (settle : Nat) {surplus : Option Fault}
      (hsurplus : surplus = none ↔ xs = []) :
      Items.Mirror (.more value settle surplus rest) (x :: xs)

inductive Members.Mirror : Members → List (String × Json) → Prop where
  | nil (stop : Nat) : Members.Mirror (.closed stop) []
  | cons {value : Node} {x : Json} {rest : Members} {es : List (String × Json)}
      (h : Node.Mirrors value x) (hrest : Members.Mirror rest es) (key : String)
      (keySettle settle : Nat) :
      Members.Mirror (.more (.ok key) keySettle value settle rest) ((key, x) :: es)

end

mutual

theorem Node.Mirrors.holds {node : Node} {x : Json} : node.Mirrors x → node.Holds x
  | .scalar _ stop => .scalar rfl stop
  | .list h start => .list h.hold start
  | .object h _ start => .object h.hold start

theorem Items.Mirror.hold {found : Items} {xs : List Json} : found.Mirror xs → found.Hold xs
  | .nil stop => .nil stop
  | .cons h hrest settle _ => .cons h.holds hrest.hold settle _

theorem Members.Mirror.hold {found : Members} {es : List (String × Json)} :
    found.Mirror es → found.Hold es
  | .nil stop => .nil stop
  | .cons h hrest key keySettle settle => .cons h.holds hrest.hold key keySettle settle

end

mutual

/-- Every value without repeated keys is mirrored. -/
theorem DistinctKeys.exists_mirrors : ∀ {x : Json}, x.DistinctKeys → ∃ node : Node, node.Mirrors x
  | .null, _ => ⟨_, .scalar .null 0⟩
  | .bool b, _ => ⟨_, .scalar (.bool b) 0⟩
  | .number n, _ => ⟨_, .scalar (.number n) 0⟩
  | .text s, _ => ⟨_, .scalar (.text s) 0⟩
  | .list _, .list h => by
    obtain ⟨found, hfound⟩ := exists_items_mirror h
    exact ⟨_, .list hfound 0⟩
  | .object _, .object hkeys h => by
    obtain ⟨found, hfound⟩ := exists_members_mirror h
    exact ⟨_, .object hfound hkeys 0⟩

theorem exists_items_mirror :
    ∀ {xs : List Json}, (∀ x ∈ xs, x.DistinctKeys) → ∃ found : Items, found.Mirror xs
  | [], _ => ⟨_, .nil 0⟩
  | x :: xs, h => by
    obtain ⟨hhead, htail⟩ := List.forall_mem_cons.mp h
    obtain ⟨value, hvalue⟩ := hhead.exists_mirrors
    obtain ⟨rest, hrest⟩ := exists_items_mirror htail
    let surplus : Option Fault := if xs = [] then none else some ⟨.tooMany 0, 0⟩
    have hsurplus : surplus = none ↔ xs = [] := by simp [surplus]
    exact ⟨_, .cons hvalue hrest 0 hsurplus⟩

theorem exists_members_mirror :
    ∀ {es : List (String × Json)}, (∀ e ∈ es, e.2.DistinctKeys) →
      ∃ found : Members, found.Mirror es
  | [], _ => ⟨_, .nil 0⟩
  | (key, x) :: es, h => by
    obtain ⟨hhead, htail⟩ := List.forall_mem_cons.mp h
    obtain ⟨value, hvalue⟩ := hhead.exists_mirrors
    obtain ⟨rest, hrest⟩ := exists_members_mirror htail
    exact ⟨_, .cons hvalue hrest key 0 0⟩

end

/-! ## Height -/

@[simp] theorem Node.ofJson_toJson (s : Scalar) : Node.ofJson s.toJson = .scalar (.ok s) 0 := by
  cases s <;> rfl

/-- The order of the members does not matter for the height. -/
theorem Members.height_ofList_perm {ns ns' : List (String × Node)} (h : ns.Perm ns') :
    (Members.ofList ns).height = (Members.ofList ns').height := by
  induction h with
  | nil => rfl
  | cons e _ ih => simp [Members.ofList, Members.height, ih]
  | swap e e' _ => simp [Members.ofList, Members.height, Nat.max_left_comm]
  | trans _ _ ih ih' => exact ih.trans ih'

mutual

/-- A node is as high as the node in memory of what it mirrors. -/
theorem Node.Mirrors.height_eq {node : Node} {x : Json} :
    node.Mirrors x → node.height = (Node.ofJson x).height
  | .scalar s _ => by rw [Node.ofJson_toJson]; rfl
  | .list h _ => by rw [Node.ofJson, Node.height, Node.height, h.height_eq]
  | @Node.Mirrors.object _ es h hkeys _ => by
    have hperm := (sortedEntries_perm hkeys).map fun e => (e.1, Node.ofJson e.2)
    simp only [Node.ofJson_object, Node.height, h.height_eq, Members.height_ofList_perm hperm]

theorem Items.Mirror.height_eq {found : Items} {xs : List Json} (h : found.Mirror xs)
    (count : Nat) : found.height = (Items.ofJson count xs).height :=
  match h with
  | .nil _ => rfl
  | .cons h hrest _ _ => by
    rw [Items.ofJson, Items.height, Items.height, h.height_eq, hrest.height_eq count]

theorem Members.Mirror.height_eq {found : Members} {es : List (String × Json)} :
    found.Mirror es → found.height = (Members.ofList (es.map fun e => (e.1, Node.ofJson e.2))).height
  | .nil _ => rfl
  | .cons h hrest _ _ _ => by
    simp [Members.ofList, Members.height, h.height_eq, hrest.height_eq]

end

/-! ## Skipping -/

mutual

/-- What can be read can be passed over. -/
theorem Node.skip_of_value {j : Json} : ∀ {node : Node}, node.value = .ok j → node.skip = .ok ()
  | .scalar _ _, _ => rfl
  | .list _ (some _) _, h => by cases h
  | .list _ none _, h => by
    obtain ⟨_, hvalues, _⟩ := map_eq_ok.mp h
    exact Items.skip_of_values hvalues
  | .object _ (some _) _, h => by cases h
  | .object _ none _, h => by
    obtain ⟨_, hvalues, _⟩ := map_eq_ok.mp h
    exact Members.skip_of_values hvalues
  | .broken _ _, h => by cases h

theorem Items.skip_of_values {index : Nat} {xs : List Json} :
    ∀ {found : Items}, found.values index = .ok xs → found.skip = .ok ()
  | .closed _, _ => rfl
  | .broken _ _, h => by cases h
  | .more value _ _ rest, h => by
    obtain ⟨_, hvalue, h⟩ := bind_eq_ok.mp h
    obtain ⟨_, hrest, _⟩ := bind_eq_ok.mp h
    rw [Items.skip, Node.skip_of_value (mapError_eq_ok.mp hvalue)]
    exact Items.skip_of_values hrest

theorem Members.skip_of_values {es : List (String × Json)} :
    ∀ {found : Members}, found.values = .ok es → found.skip = .ok ()
  | .closed _, _ => rfl
  | .broken _ _, h => by cases h
  | .unvalued (.error _) _ _, h => by cases h
  | .unvalued (.ok _) _ _, h => by cases h
  | .more (.error _) _ _ _ _, h => by cases h
  | .more (.ok _) _ value _ rest, h => by
    obtain ⟨_, hvalue, h⟩ := bind_eq_ok.mp h
    obtain ⟨_, hrest, _⟩ := bind_eq_ok.mp h
    rw [Members.skip, Node.skip_of_value (mapError_eq_ok.mp hvalue)]
    exact Members.skip_of_values hrest

end

end FormRules.Json
