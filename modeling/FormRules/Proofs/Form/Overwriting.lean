-- SUMMARY: What an edit puts over what was there, and that a repeated edit changes nothing.
import FormRules.Proofs.Form.Edit
import FormRules.Proofs.Form.Offers

/-!
# Overwriting

An edit changes one value and applies its maps one after the other. Of several maps on a target the
last one that says something of its visibility decides on that, and the last one that lists choices
decides on these (`edit_is_decided_by_last_maps`). What the last maps say depends neither on the state
before nor on how often it is said, so that an edit made twice is made once
(`repeated_edit_changes_nothing`).
-/

namespace FormRules

/-! ## Stored values and applied maps -/

namespace FormState

variable {s : FormState} {apiName value : String}

/-- Storing the value that a name has changes nothing. -/
theorem store_eq_self (h : s.values.get? apiName = some value) : s.store apiName value = s := by
  refine ext_presentation? ?_ (s.presentation?_store apiName value)
  ext other : 1
  by_cases ho : other = apiName
  · simp [ho, h]
  · simp [Table.get?_insert_of_ne _ ho]

end FormState

namespace Form

/-- Maps do not look at values. -/
theorem store_applyMaps (f : Form) (s : FormState) (maps : List FieldMap) (apiName value : String) :
    (f.applyMaps s maps).store apiName value = f.applyMaps (s.store apiName value) maps := by
  refine FormState.ext_presentation? (by simp) fun target => ?_
  simp [presentation?_applyMaps_eq]

/-- What maps say once they need not say again. -/
theorem applyMaps_applyMaps_self (f : Form) (s : FormState) (maps : List FieldMap) :
    f.applyMaps (f.applyMaps s maps) maps = f.applyMaps s maps := by
  refine FormState.ext_presentation? (by simp) fun target => ?_
  rw [presentation?_applyMaps_eq, presentation?_applyMaps_eq]
  split
  · rfl
  · rw [Option.getD_some, Presentation.update_update, Option.or_self, Option.or_self]

end Form

/-! ## The last maps decide -/

/-- The choices of a layout for a name that have the same actual value as one of some choices. -/
def Layout.choicesAmong (l : Layout) (apiName : String) (listed : List Choice) : List Choice :=
  (l.listedChoices apiName).filter fun c =>
    c.actualValue.isSome ∧ ∃ d ∈ listed, d.actualValue = c.actualValue

namespace Form

theorem restricted_eq_choicesAmong (f : Form) (apiName : String) :
    f.restricted apiName = f.layout.choicesAmong apiName := by
  funext listed
  unfold restricted Layout.choicesAmong Layout.listedChoices
  cases f.layout.field? apiName with
  | none => rfl
  | some field =>
    refine List.filter_congr fun c _ => ?_
    cases c.actualValue <;> simp

/-- What some maps leave of a state: each target has what the last map on it says, and what no map
says stays as it was. -/
structure Overwrites (f : Form) (maps : List FieldMap) (before after : FormState) : Prop where
  visible : ∀ target, after.visible? target
    = (f.lastSaid? (·.visible) maps target).or (before.visible? target)
  choices : ∀ apiName, after.choices? (.field apiName)
    = ((f.lastSaid? (·.choices) maps (.field apiName)).map (f.layout.choicesAmong apiName)).or
      (before.choices? (.field apiName))
  areas : ∀ id, after.choices? (.area id) = before.choices? (.area id)
  frame : ∀ target, (∀ m ∈ maps, f.target? m ≠ some target) →
    after.presentation? target = before.presentation? target

theorem lastSaid?_mapChoices_field (f : Form) (maps : List FieldMap) (apiName : String) :
    f.lastSaid? (f.mapChoices (.field apiName)) maps (.field apiName)
      = (f.lastSaid? (·.choices) maps (.field apiName)).map (f.layout.choicesAmong apiName) := by
  have hread : f.mapChoices (.field apiName)
      = fun m => m.choices.map (f.layout.choicesAmong apiName) := by
    rw [← restricted_eq_choicesAmong]
    rfl
  rw [lastSaid?, lastSaid?, hread, ← List.getLast?_map, List.map_filterMap]

theorem lastSaid?_mapChoices_area (f : Form) (maps : List FieldMap) (id : String) :
    f.lastSaid? (f.mapChoices (.area id)) maps (.area id) = none :=
  lastSaid?_eq_none_iff.mpr fun _ _ _ => rfl

theorem overwrites_applyMaps (f : Form) (s : FormState) (maps : List FieldMap) :
    f.Overwrites maps s (f.applyMaps s maps) where
  visible := f.visible?_applyMaps_eq s maps
  choices := fun apiName => by rw [choices?_applyMaps_eq, lastSaid?_mapChoices_field]
  areas := fun id => by rw [choices?_applyMaps_eq, lastSaid?_mapChoices_area, Option.none_or]
  frame := fun _ h => presentation?_applyMaps h s

end Form

/-- An edit gives its name its value and leaves all other values alone. It succeeds exactly if every
rule that it touches can be evaluated for the values after it, and then the last of its maps decide
on each target. If it fails, nothing is shown, hidden or restricted. -/
theorem edit_is_decided_by_last_maps (f : Form) (s : FormState) (apiName value : String) :
    (∀ other, (f.set s apiName value).1.values.get? other
      = if other = apiName then some value else s.values.get? other)
    ∧ ((f.set s apiName value).2 = none
      ↔ ∃ maps, f.EditMaps (s.values.insert apiName value) apiName value maps)
    ∧ (∀ maps, f.EditMaps (s.values.insert apiName value) apiName value maps →
      f.Overwrites maps s (f.set s apiName value).1)
    ∧ ∀ e, (f.set s apiName value).2 = some e →
      (f.set s apiName value).1.fields = s.fields ∧ (f.set s apiName value).1.areas = s.areas := by
  refine ⟨fun other => ?_, ?_⟩
  · rw [Form.values_set, Table.get?_insert]
  obtain ⟨e, hmaps, hset⟩ | ⟨maps, hmaps, hset⟩ := f.set_cases s apiName value
  · have hnone : ∀ maps, ¬ f.EditMaps (s.values.insert apiName value) apiName value maps := by
      simp [← Form.mapsAfter_eq_ok_iff, hmaps]
    exact ⟨by simp [hset, hnone], fun maps h => absurd h (hnone maps),
      by simp [hset, FormState.store]⟩
  · have hedit := Form.mapsAfter_eq_ok_iff.mp hmaps
    refine ⟨by simpa [hset] using ⟨maps, hedit⟩, fun others hothers => ?_, by simp [hset]⟩
    obtain rfl : maps = others :=
      Except.ok.inj (hmaps.symm.trans (Form.mapsAfter_eq_ok_iff.mpr hothers))
    have hover := f.overwrites_applyMaps (s.store apiName value) maps
    rw [hset]
    exact ⟨by simpa using hover.visible, by simpa using hover.choices, by simpa using hover.areas,
      by simpa using hover.frame⟩

/-- The maps of a country hide the cities and list two of them, by name and by `id`. A rule shows the
cities again and leaves one of them, and it is the last to speak. -/
theorem edit_is_decided_by_last_maps_of_country :
    let berlin : Choice := { actualValue := some "Berlin" }
    let hamburg : Choice := { actualValue := some "Hamburg" }
    let byName : FieldMap := {
      apiName := some "city", visible := some false, choices := some [berlin, hamburg] }
    let byId : FieldMap := { id := some "f-city", choices := some [hamburg] }
    let germany : Choice := { actualValue := some "DE", maps := some [byName, byId] }
    let layout : Layout := {
      sections := [{ id := some "main", fields := [
        { apiName := some "country", dataType := "pick_list", choices := some [germany] },
        { apiName := some "city", dataType := "pick_list", id := some "f-city"
          choices := some [hamburg, berlin, { berlin with displayValue := some "capital" }] }] }] }
    let rule : CompiledRule := ⟨0, .equal (.field "country") (.literal (.text "DE")),
      [.setVisible true (.ofField "city"), .allow "city" "Berlin"], []⟩
    let f : Form := ⟨layout, ⟨[rule]⟩⟩
    let maps := [byName, byId, { apiName := some "city", visible := some true },
      .allowing "city" "Berlin"]
    f.EditMaps (Table.empty.insert "country" "DE") "country" "DE" maps
      ∧ (f.set {} "country" "DE").2 = none
      ∧ (f.set {} "country" "DE").1.visible? (.field "city") = some true
      ∧ (f.set {} "country" "DE").1.choices? (.field "city")
        = some [berlin, { berlin with displayValue := some "capital" }]
      ∧ (f.set {} "country" "DE").1.presentation? (.area "main") = none := by
  intro berlin hamburg byName byId germany layout rule f maps
  have hmaps : f.EditMaps (Table.empty.insert "country" "DE") "country" "DE" maps :=
    Form.mapsAfter_eq_ok_iff.mp rfl
  obtain ⟨_, hsucceeds, hdecided, _⟩ := edit_is_decided_by_last_maps f {} "country" "DE"
  have hover := hdecided maps hmaps
  refine ⟨hmaps, hsucceeds.mpr ⟨maps, hmaps⟩, (hover.visible _).trans rfl,
    (hover.choices _).trans rfl, (hover.frame _ ?_).trans rfl⟩
  simp [maps, byName, byId, FieldMap.allowing, Form.target?, f, layout, Layout.section?,
    Layout.fields]

/-! ## Edits made twice -/

/-- An edit made twice is an edit made once: the second time it ends in the same state and, if it
fails, with the same error. -/
theorem repeated_edit_changes_nothing (f : Form) (s : FormState) (apiName value : String) :
    f.set (f.set s apiName value).1 apiName value = f.set s apiName value := by
  have hvalues : (f.set s apiName value).1.values = s.values.insert apiName value :=
    f.values_set s apiName value
  have hstored : (f.set s apiName value).1.store apiName value = (f.set s apiName value).1 :=
    FormState.store_eq_self (by simp [hvalues])
  have hinsert : (f.set s apiName value).1.values.insert apiName value
      = s.values.insert apiName value := by
    rw [← FormState.values_store, hstored, hvalues]
  rw [f.set_eq_applied (f.set s apiName value).1, hstored, hinsert, f.set_eq_applied s,
    Form.applyMaps_applyMaps_self]

end FormRules
