-- SUMMARY: Values with all their objects in sorted form, and the nodes of such values.
import FormRules.Json.Node
import FormRules.Proofs.Success

/-!
# Sorted values

Reading a value of any shape gives it with its objects in their sorted form. So does going over a
value in memory, whose node is made of the sorted form too: of a value that is sorted already nothing
is lost.
-/

namespace FormRules.Json

variable {α β : Type}

/-! ## Sorted entries -/

theorem keySorted_sortedEntries (es : List (String × α)) : KeySorted (sortedEntries es) :=
  (Table.ofList es).sorted

/-- Entries that are sorted stay as they are. -/
theorem sortedEntries_of_keySorted {es : List (String × α)} (h : KeySorted es) :
    sortedEntries es = es := by
  have htable : Table.empty.mergedWith ⟨es, h⟩ = ⟨es, h⟩ := by
    ext1 key
    simp [Table.get?_mergedWith]
  exact congrArg Table.entries htable

theorem mem_of_mem_insertAll {t : Table α} {es : List (String × α)} {e : String × α}
    (h : e ∈ (t.insertAll es).entries) : e ∈ t.entries ∨ e ∈ es := by
  induction es generalizing t with
  | nil => exact .inl h
  | cons e' es ih =>
    obtain hinsert | hes := ih h
    · obtain rfl | ht := Entries.mem_insert hinsert
      · exact .inr List.mem_cons_self
      · exact .inl ht
    · exact .inr (List.mem_cons_of_mem _ hes)

/-- Sorting makes no entries. -/
theorem mem_of_mem_sortedEntries {es : List (String × α)} {e : String × α}
    (h : e ∈ sortedEntries es) : e ∈ es := by
  simpa [Table.empty] using mem_of_mem_insertAll h

theorem insert_perm {key : String} {value : α} {es : List (String × α)}
    (h : key ∉ es.map (·.1)) : (Entries.insert key value es).Perm ((key, value) :: es) := by
  induction es with
  | nil => exact .refl _
  | cons e es ih =>
    obtain ⟨hne, hes⟩ : key ≠ e.1 ∧ key ∉ es.map (·.1) := by simpa using h
    rw [Entries.insert, if_neg hne]
    split
    · exact .refl _
    · exact ((ih hes).cons e).trans (.swap _ _ es)

theorem insertAll_perm {t : Table α} {es : List (String × α)}
    (h : ((t.entries ++ es).map (·.1)).Nodup) : (t.insertAll es).entries.Perm (t.entries ++ es) := by
  induction es generalizing t with
  | nil => simp
  | cons e es ih =>
    have hmiddle : (t.entries ++ e :: es).Perm (e :: (t.entries ++ es)) := List.perm_middle
    have hnodup := (hmiddle.map (·.1)).nodup_iff.mp h
    have hinsert : (t.insert e.1 e.2).entries.Perm (e :: t.entries) :=
      insert_perm fun hmem => (List.nodup_cons.mp hnodup).1 (by simp_all)
    have hall := hinsert.append_right es
    exact (ih ((hall.map (·.1)).nodup_iff.mpr hnodup)).trans (hall.trans hmiddle.symm)

/-- If no key repeats, sorting only changes the order. -/
theorem sortedEntries_perm {es : List (String × α)} (h : (es.map (·.1)).Nodup) :
    (sortedEntries es).Perm es :=
  insertAll_perm (t := Table.empty) h

theorem insert_map (f : α → β) (key : String) (value : α) (es : List (String × α)) :
    Entries.insert key (f value) (es.map fun e => (e.1, f e.2))
      = (Entries.insert key value es).map fun e => (e.1, f e.2) := by
  induction es with
  | nil => rfl
  | cons e es ih =>
    simp only [List.map_cons, Entries.insert, ih]
    split
    · rfl
    · split <;> rfl

theorem insertAll_map (f : α → β) (t : Table α) (t' : Table β)
    (h : t'.entries = t.entries.map fun e => (e.1, f e.2)) (es : List (String × α)) :
    (t'.insertAll (es.map fun e => (e.1, f e.2))).entries
      = (t.insertAll es).entries.map fun e => (e.1, f e.2) := by
  induction es generalizing t t' with
  | nil => exact h
  | cons e es ih =>
    have hhead := insert_map f e.1 e.2 t.entries
    rw [← h] at hhead
    exact ih (t.insert e.1 e.2) (t'.insert e.1 (f e.2)) hhead

/-- Sorting looks at the keys alone. -/
theorem sortedEntries_map (f : α → β) (es : List (String × α)) :
    sortedEntries (es.map fun e => (e.1, f e.2)) = (sortedEntries es).map fun e => (e.1, f e.2) :=
  insertAll_map f .empty .empty rfl es

/-! ## Sorted values -/

mutual

/-- A value with the entries of all its objects in their sorted form. -/
def sorted : Json → Json
  | list xs => list (sortedItems xs)
  | object es => object (sortedEntries (sortedValues es))
  | null => null
  | bool b => bool b
  | number n => number n
  | text s => text s

def sortedItems : List Json → List Json
  | [] => []
  | x :: rest => sorted x :: sortedItems rest

def sortedValues : List (String × Json) → List (String × Json)
  | [] => []
  | (key, x) :: rest => (key, sorted x) :: sortedValues rest

end

@[simp] theorem sortedItems_eq_map (xs : List Json) : sortedItems xs = xs.map sorted := by
  induction xs with
  | nil => rfl
  | cons x rest ih => simp [sortedItems, ih]

@[simp] theorem sortedValues_eq_map (es : List (String × Json)) :
    sortedValues es = es.map fun e => (e.1, sorted e.2) := by
  induction es with
  | nil => rfl
  | cons e rest ih => simp [sortedValues, ih]

theorem sorted_object (es : List (String × Json)) :
    (object es).sorted = object ((sortedEntries es).map fun e => (e.1, sorted e.2)) := by
  rw [sorted, sortedValues_eq_map, sortedEntries_map]

/-- An object with sorted keys is sorted if its values are. -/
theorem sorted_object_sortedEntries {es : List (String × Json)} (h : ∀ e ∈ es, e.2.sorted = e.2) :
    (object (sortedEntries es)).sorted = object (sortedEntries es) := by
  have hvalues : ((sortedEntries es).map fun e => (e.1, sorted e.2)) = sortedEntries es :=
    (List.map_congr_left fun e he => by
      simp [h e (mem_of_mem_sortedEntries he)]).trans (List.map_id _)
  rw [sorted_object, sortedEntries_of_keySorted (keySorted_sortedEntries es), hvalues]

mutual

/-- Whatever is read as a value of any shape is sorted. -/
theorem sorted_of_value {j : Json} : ∀ {node : Node}, node.value = .ok j → j.sorted = j
  | .scalar (.ok s) _, h => by cases h; cases s <;> rfl
  | .scalar (.error _) _, h => by cases h
  | .list _ (some _) _, h => by cases h
  | .list _ none found, h => by
    obtain ⟨xs, hxs, rfl⟩ := map_eq_ok.mp h
    rw [sorted, sortedItems_eq_map, List.map_congr_left (sorted_of_values hxs), List.map_id']
  | .object _ (some _) _, h => by cases h
  | .object _ none found, h => by
    obtain ⟨es, hes, rfl⟩ := map_eq_ok.mp h
    exact sorted_object_sortedEntries (sorted_of_memberValues hes)
  | .broken _ _, h => by cases h

theorem sorted_of_values {index : Nat} {xs : List Json} :
    ∀ {found : Items}, found.values index = .ok xs → ∀ x ∈ xs, x.sorted = x
  | .closed _, h => by cases h; simp
  | .broken _ _, h => by cases h
  | .more value _ _ rest, h => by
    rw [Items.values, bind_eq_ok] at h
    obtain ⟨x, hx, h⟩ := h
    obtain ⟨others, hothers, h⟩ := bind_eq_ok.mp h
    cases h
    exact List.forall_mem_cons.mpr
      ⟨sorted_of_value (mapError_eq_ok.mp hx), sorted_of_values hothers⟩

theorem sorted_of_memberValues {es : List (String × Json)} :
    ∀ {found : Members}, found.values = .ok es → ∀ e ∈ es, e.2.sorted = e.2
  | .closed _, h => by cases h; simp
  | .broken _ _, h => by cases h
  | .unvalued (.error _) _ _, h => by cases h
  | .unvalued (.ok _) _ _, h => by cases h
  | .more (.error _) _ _ _ _, h => by cases h
  | .more (.ok key) _ value _ rest, h => by
    rw [Members.values, bind_eq_ok] at h
    obtain ⟨x, hx, h⟩ := h
    obtain ⟨others, hothers, h⟩ := bind_eq_ok.mp h
    cases h
    exact List.forall_mem_cons.mpr
      ⟨sorted_of_value (mapError_eq_ok.mp hx), sorted_of_memberValues hothers⟩

end

/-! ## Values in memory -/

theorem Node.ofJson_object (es : List (String × Json)) : Node.ofJson (.object es)
    = .object 0 none (.ofList ((sortedEntries es).map fun e => (e.1, Node.ofJson e.2))) := by
  rw [Node.ofJson, Members.nodes_eq_map, sortedEntries_map]

mutual

/-- The node of a value and that of its sorted form are the same. -/
theorem Node.ofJson_sorted : ∀ x : Json, Node.ofJson x.sorted = Node.ofJson x
  | .null => rfl
  | .bool _ => rfl
  | .number _ => rfl
  | .text _ => rfl
  | .list xs => by
    rw [sorted, Node.ofJson, Node.ofJson, Items.ofJson_sortedItems, sortedItems_eq_map,
      List.length_map]
  | .object es => by
    have hnodes := Members.nodes_sortedValues es
    have hsorted : KeySorted ((sortedEntries es).map fun e => (e.1, sorted e.2)) := by
      rw [← sortedEntries_map]
      exact keySorted_sortedEntries _
    rw [sorted_object, Node.ofJson_object, Node.ofJson_object, sortedEntries_of_keySorted hsorted,
      List.map_map]
    refine congrArg (fun ns => Node.object 0 none (.ofList ns)) (List.map_congr_left fun e he => ?_)
    simp [hnodes e (mem_of_mem_sortedEntries he)]

theorem Items.ofJson_sortedItems {count : Nat} :
    ∀ xs : List Json, Items.ofJson count (sortedItems xs) = Items.ofJson count xs
  | [] => rfl
  | x :: rest => by
    rw [sortedItems, Items.ofJson, Items.ofJson, Node.ofJson_sorted x,
      Items.ofJson_sortedItems rest, sortedItems_eq_map, List.isEmpty_map]

theorem Members.nodes_sortedValues :
    ∀ es : List (String × Json), ∀ e ∈ es, Node.ofJson e.2.sorted = Node.ofJson e.2
  | [] => by simp
  | (_, x) :: rest => List.forall_mem_cons.mpr ⟨Node.ofJson_sorted x, Members.nodes_sortedValues rest⟩

end

theorem Members.values_ofList {es : List (String × Json)}
    (h : ∀ e ∈ es, (Node.ofJson e.2).value = .ok e.2.sorted) :
    (Members.ofList (es.map fun e => (e.1, Node.ofJson e.2))).values
      = .ok (es.map fun e => (e.1, e.2.sorted)) := by
  induction es with
  | nil => rfl
  | cons e es ih =>
    obtain ⟨hhead, htail⟩ := List.forall_mem_cons.mp h
    simp [Members.ofList, Members.values, hhead, ih htail]

mutual

/-- Any value in memory is read as its sorted form. -/
theorem Node.value_ofJson : ∀ x : Json, (Node.ofJson x).value = .ok x.sorted
  | .null => rfl
  | .bool _ => rfl
  | .number _ => rfl
  | .text _ => rfl
  | .list xs => by
    rw [Node.ofJson, Node.value, Items.values_ofJson xs, map_ok, sorted]
  | .object es => by
    have hvalues := Members.values_nodes es
    rw [Node.ofJson_object, Node.value,
      Members.values_ofList fun e he => hvalues e (mem_of_mem_sortedEntries he), map_ok,
      sorted_object, sortedEntries_map, sortedEntries_of_keySorted (keySorted_sortedEntries es)]

theorem Items.values_ofJson {count index : Nat} :
    ∀ xs : List Json, (Items.ofJson count xs).values index = .ok (sortedItems xs)
  | [] => rfl
  | x :: rest => by
    simp [Items.ofJson, Items.values, Node.value_ofJson x, Items.values_ofJson rest]

theorem Members.values_nodes :
    ∀ es : List (String × Json), ∀ e ∈ es, (Node.ofJson e.2).value = .ok e.2.sorted
  | [] => by simp
  | (_, x) :: rest => List.forall_mem_cons.mpr ⟨Node.value_ofJson x, Members.values_nodes rest⟩

end

end FormRules.Json
