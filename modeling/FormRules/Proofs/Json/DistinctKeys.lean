-- SUMMARY: Values in which no object repeats a key.
import FormRules.Proofs.Json.Sorted

/-!
# Distinct keys

A value whose objects repeat no key loses nothing when it is sorted. Every sorted value is such, and
so is a record that is written with keys of its own.
-/

namespace FormRules.Json

/-- No object in a value repeats a key. -/
inductive DistinctKeys : Json → Prop where
  | null : DistinctKeys .null
  | bool (b : Bool) : DistinctKeys (.bool b)
  | number (n : Number) : DistinctKeys (.number n)
  | text (s : String) : DistinctKeys (.text s)
  | list {xs : List Json} (h : ∀ x ∈ xs, DistinctKeys x) : DistinctKeys (.list xs)
  | object {es : List (String × Json)} (hkeys : (es.map (·.1)).Nodup)
      (h : ∀ e ∈ es, DistinctKeys e.2) : DistinctKeys (.object es)

theorem nodup_keys_of_keySorted {α : Type} {es : List (String × α)} (h : KeySorted es) :
    (es.map (·.1)).Nodup :=
  List.pairwise_map.mpr (h.imp text_ne_of_lt)

mutual

theorem distinctKeys_sorted : ∀ x : Json, x.sorted.DistinctKeys
  | .null => .null
  | .bool b => .bool b
  | .number n => .number n
  | .text s => .text s
  | .list xs => .list (distinctKeys_sortedItems xs)
  | .object es => .object (nodup_keys_of_keySorted (keySorted_sortedEntries _)) fun e he =>
      distinctKeys_sortedValues es e (mem_of_mem_sortedEntries he)

theorem distinctKeys_sortedItems : ∀ xs : List Json, ∀ x ∈ sortedItems xs, x.DistinctKeys
  | [] => by simp [sortedItems]
  | x :: rest => List.forall_mem_cons.mpr ⟨distinctKeys_sorted x, distinctKeys_sortedItems rest⟩

theorem distinctKeys_sortedValues :
    ∀ es : List (String × Json), ∀ e ∈ sortedValues es, e.2.DistinctKeys
  | [] => by simp [sortedValues]
  | (_, x) :: rest =>
    List.forall_mem_cons.mpr ⟨distinctKeys_sorted x, distinctKeys_sortedValues rest⟩

end

/-! ## Written entries -/

/-- Entries of values without repeated keys, whose own keys are some of those given, in their
order. -/
structure DistinctWithin (keys : List String) (es : List (String × Json)) : Prop where
  keys : (es.map (·.1)).Sublist keys
  values : ∀ e ∈ es, e.2.DistinctKeys

section

variable {keys keys' : List String} {es es' : List (String × Json)}

theorem DistinctWithin.distinctKeys (h : DistinctWithin keys es) (hkeys : keys.Nodup) :
    (object es).DistinctKeys :=
  .object (hkeys.sublist h.keys) h.values

theorem DistinctWithin.append (h : DistinctWithin keys es) (h' : DistinctWithin keys' es') :
    DistinctWithin (keys ++ keys') (es ++ es') where
  keys := by
    rw [List.map_append]
    exact h.keys.append h'.keys
  values := List.forall_mem_append.mpr ⟨h.values, h'.values⟩

theorem distinctWithin_nil (keys : List String) : DistinctWithin keys [] where
  keys := List.nil_sublist keys
  values := by simp

theorem distinctWithin_single (key : String) {x : Json} (h : x.DistinctKeys) :
    DistinctWithin [key] [(key, x)] where
  keys := List.Sublist.refl _
  values := by simpa using h

theorem distinctWithin_entry (key : String) {value : Option Json}
    (h : ∀ x ∈ value, x.DistinctKeys) : DistinctWithin [key] ( entry? key value) := by
  cases value with
  | none => exact distinctWithin_nil [key]
  | some x => exact distinctWithin_single key (h x rfl)

theorem distinctWithin_map {α : Type} (key : String) {value : Option α} {toJson : α → Json}
    (h : ∀ a ∈ value, (toJson a).DistinctKeys) :
    DistinctWithin [key] ( entry? key (value.map toJson)) := by
  refine distinctWithin_entry key fun x hx => ?_
  obtain ⟨a, ha, rfl⟩ := Option.map_eq_some_iff.mp hx
  exact h a ha

theorem distinctWithin_text (key : String) (value : Option String) :
    DistinctWithin [key] ( entry? key (value.map .text)) :=
  distinctWithin_map key fun s _ => .text s

theorem distinctWithin_bool (key : String) (value : Option Bool) :
    DistinctWithin [key] ( entry? key (value.map .bool)) :=
  distinctWithin_map key fun b _ => .bool b

end

end FormRules.Json
