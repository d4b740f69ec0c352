-- SUMMARY: Arrays element by element: when they are JSON, and when a list is read from them.
import FormRules.Json.Reader
import FormRules.Proofs.Success
import Mathlib.Data.List.Forall2

/-!
# Elements of arrays

A node that is read as an array of JSON is a sound array, and each of its elements is read as JSON.
What is then read from every element for itself is read from the array as a list.
-/

namespace FormRules.Json

/-- The elements of an array, up to its end or to where it breaks off. -/
def Items.nodes : Items → List Node
  | .closed _ => []
  | .broken _ _ => []
  | .more value _ _ rest => value :: rest.nodes

/-- The elements of an array; any other value has none. -/
def Node.elements : Node → List Node
  | .list _ _ found => found.nodes
  | _ => []

theorem Node.value_eq_list {node : Node} {xs : List Json} (h : node.value = .ok (.list xs)) :
    ∃ start found, node = .list start none found ∧ found.values 0 = .ok xs := by
  match node with
  | .scalar (.ok s) _ => cases s <;> cases h
  | .scalar (.error _) _ => cases h
  | .list _ (some _) _ => cases h
  | .list start none found =>
    obtain ⟨_, hvalues, hxs⟩ := map_eq_ok.mp h
    cases hxs
    exact ⟨start, found, rfl, hvalues⟩
  | .object _ (some _) _ => cases h
  | .object _ none _ =>
    obtain ⟨_, _, hxs⟩ := map_eq_ok.mp h
    cases hxs
  | .broken _ _ => cases h

theorem Items.values_more_eq_ok {index settle : Nat} {value : Node} {surplus : Option Fault}
    {rest : Items} {xs : List Json} :
    (Items.more value settle surplus rest).values index = .ok xs ↔
      ∃ x others, value.value = .ok x ∧ rest.values (index + 1) = .ok others ∧ xs = x :: others := by
  simp only [Items.values, bind_eq_ok, mapError_eq_ok, Except.ok.injEq, eq_comm (a := xs)]
  constructor
  · rintro ⟨x, hx, others, hothers, hxs⟩
    exact ⟨x, others, hx, hothers, hxs⟩
  · rintro ⟨x, others, hx, hothers, hxs⟩
    exact ⟨x, hx, others, hothers, hxs⟩

theorem Items.exists_value_of_mem :
    ∀ {found : Items} {index : Nat} {xs : List Json}, found.values index = .ok xs →
      ∀ v ∈ found.nodes, ∃ x, v.value = .ok x
  | .closed _, _, _, _, v, hv => by cases hv
  | .broken _ _, _, _, h, _, _ => by cases h
  | .more value _ _ rest, _, _, h, v, hv => by
    obtain ⟨x, _, hx, hothers, _⟩ := values_more_eq_ok.mp h
    obtain rfl | hrest := List.mem_cons.mp hv
    · exact ⟨x, hx⟩
    · exact exists_value_of_mem hothers v hrest

/-- A sound array is read if each of its elements is. -/
theorem Reader.items_eq_ok_of_nodes {α : Type} {r : Reader α} :
    ∀ {found : Items} {index : Nat} {xs : List Json} {as : List α}, found.values index = .ok xs →
      List.Forall₂ (fun v a => r v = .ok a) found.nodes as → r.items index found = .ok as
  | .closed _, _, _, _, _, .nil => rfl
  | .broken _ _, _, _, _, h, _ => by cases h
  | .more _ _ _ _, _, _, _, h, .cons ha has => by
    obtain ⟨_, _, _, hothers, _⟩ := Items.values_more_eq_ok.mp h
    have hrest := items_eq_ok_of_nodes hothers has
    simp [Reader.items, part, ha, hrest]

end FormRules.Json
