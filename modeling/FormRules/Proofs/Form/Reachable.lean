-- SUMMARY: The states that a form can reach, and the induction over them.
import FormRules.Proofs.Form.Application
import FormRules.Proofs.Form.Run

/-!
# Reachable states

A form reaches the state in which it starts and then the state after every edit, whether or not the
edit succeeds. What holds of the empty state and is kept by every edit holds of all of them
(`Form.Reachable.induction`), since a form starts by making edits too.
-/

namespace FormRules

namespace Form

variable {f : Form}

/-- What an edit does: it stores the value, and applies the maps that follow unless they cannot be
determined. -/
theorem set_cases (f : Form) (s : FormState) (apiName value : String) :
    (∃ e, f.mapsAfter (s.values.insert apiName value) apiName value = .error e
      ∧ f.set s apiName value = (s.store apiName value, some e))
    ∨ ∃ maps, f.mapsAfter (s.values.insert apiName value) apiName value = .ok maps
      ∧ f.set s apiName value = (f.applyMaps (s.store apiName value) maps, none) := by
  cases h : f.mapsAfter (s.values.insert apiName value) apiName value with
  | error e => exact .inl ⟨e, rfl, by simp [Form.set, h]⟩
  | ok maps => exact .inr ⟨maps, rfl, by simp [Form.set, h]⟩

theorem values_set (f : Form) (s : FormState) (apiName value : String) :
    (f.set s apiName value).1.values = s.values.insert apiName value := by
  obtain ⟨e, _, h⟩ | ⟨maps, _, h⟩ := f.set_cases s apiName value <;> simp [h]

theorem values_run (f : Form) (s : FormState) (edits : List (String × String)) :
    (f.run s edits).1.values = s.values.insertAll edits := by
  induction edits generalizing s with
  | nil => rfl
  | cons edit rest ih =>
    obtain ⟨apiName, value⟩ := edit
    rw [run, ih, values_set, Table.insertAll_cons]

/-- The states that a form can be in. -/
inductive Reachable (f : Form) : FormState → Prop where
  | start {provided : FormValues} {s : FormState} : f.start provided = .ok s → Reachable f s
  | edit {s : FormState} (apiName value : String) : Reachable f s →
    Reachable f (f.set s apiName value).1

theorem setAll_induction {P : FormState → Prop}
    (hset : ∀ s apiName value, P s → P (f.set s apiName value).1) {initial : FormValues}
    {names : List String} {s s' : FormState} (hs : P s)
    (h : f.setAll initial s names = .ok s') : P s' := by
  induction names generalizing s with
  | nil =>
    obtain rfl : s = s' := by simpa [setAll] using h
    exact hs
  | cons apiName rest ih =>
    cases hi : initial.get? apiName with
    | none => exact ih hs (by simpa [setAll, hi] using h)
    | some value =>
      have hnext := hset s apiName value hs
      obtain ⟨e, _, hfail⟩ | ⟨maps, _, hok⟩ := f.set_cases s apiName value
      · simp [setAll, hi, hfail] at h
      · rw [hok] at hnext
        exact ih hnext (by simpa [setAll, hi, hok] using h)

/-- What holds of the empty state and is kept by every edit holds of every reachable state. -/
theorem Reachable.induction {P : FormState → Prop} (hempty : P {})
    (hset : ∀ s apiName value, P s → P (f.set s apiName value).1) {s : FormState}
    (h : f.Reachable s) : P s := by
  induction h with
  | start hstart => exact setAll_induction hset hempty hstart
  | edit apiName value _ ih => exact hset _ apiName value ih

/-- A run leads from a reachable state to a reachable state. -/
theorem Reachable.run {s : FormState} (h : f.Reachable s) (edits : List (String × String)) :
    f.Reachable (f.run s edits).1 := by
  induction edits generalizing s with
  | nil => exact h
  | cons edit rest ih => exact ih (h.edit edit.1 edit.2)

end Form

end FormRules
