-- SUMMARY: The list of values that an effect adds to, and what it leaves on offer.
import FormRules.Proofs.Form.Application
import FormRules.Proofs.Form.EffectMaps
import FormRules.Extraction

/-!
# Open lists

An effect that lets a field offer one more value adds it to the last map, if that one lists values of
the field. These values are the open list of the field (`openValues`). The lemmas say what one value
more, and a list of values more, do to what is shown, to what is on offer and to the open lists.
-/

namespace FormRules

/-- The values that a map lists. -/
def FieldMap.values (m : FieldMap) : List String := m.dependents.filterMap (·.actualValue)

/-! ## Lists that are open -/

/-- The values of the last map, if it lists values of a field. An effect adds to them. -/
def openValues (maps : List FieldMap) (field : String) : List String :=
  match maps.getLast? with
  | some m => if m.apiName = some field then m.values else []
  | none => []

@[simp] theorem openValues_nil (field : String) : openValues [] field = [] := rfl

@[simp] theorem openValues_concat (maps : List FieldMap) (m : FieldMap) (field : String) :
    openValues (maps ++ [m]) field = if m.apiName = some field then m.values else [] := by
  simp [openValues]

/-- The maps of a list of values of a field, put after other maps one by one. -/
def allowAll (field : String) (values : List String) (maps : List FieldMap) : List FieldMap :=
  values.foldl (fun maps value => allowLast field value maps) maps

@[simp] theorem allowAll_nil (field : String) (maps : List FieldMap) :
    allowAll field [] maps = maps := rfl

@[simp] theorem allowAll_cons (field value : String) (values : List String)
    (maps : List FieldMap) :
    allowAll field (value :: values) maps = allowAll field values (allowLast field value maps) := rfl

/-- Where an effect makes a new map, no list was open. -/
theorem openValues_eq_nil {field value : String} {maps : List FieldMap}
    (h : ∀ before m, maps = before ++ [m] → m.extend? field value = none) :
    openValues maps field = [] := by
  rcases List.eq_nil_or_concat maps with rfl | ⟨before, m, rfl⟩
  · rfl
  · rw [List.concat_eq_append, openValues_concat]
    split
    · next hname =>
      have hnone := FieldMap.extend?_eq_none_iff.mp (h before m (by simp)) hname
      simp [FieldMap.values, FieldMap.dependents, hnone]
    · rfl

theorem openValues_allowLast (field value other : String) (maps : List FieldMap) :
    openValues (allowLast field value maps) other
      = if field = other then openValues maps field ++ [value] else [] := by
  obtain ⟨before, m, extended, rfl, hextended, h⟩ | ⟨hlast, h⟩ := allowLast_cases field value maps
  · obtain ⟨cs, hcs, hname, rfl⟩ := FieldMap.extend?_eq_some_iff.mp hextended
    rw [h]
    simp [FieldMap.values, FieldMap.dependents, hname, hcs]
  · rw [h, openValues_eq_nil hlast]
    simp [FieldMap.allowing, FieldMap.values, FieldMap.dependents]

theorem openValues_allowAll (field other : String) (values : List String) (maps : List FieldMap) :
    openValues (allowAll field values maps) other
      = if field = other then openValues maps field ++ values
        else if values = [] then openValues maps other else [] := by
  induction values generalizing maps with
  | nil => by_cases h : field = other <;> simp [h]
  | cons value rest ih =>
    rw [allowAll_cons, ih, openValues_allowLast, openValues_allowLast]
    by_cases h : field = other <;> simp [h]

namespace Form

variable {f : Form} {s : FormState}

/-- The choices of the layout for a field that have one of some values. -/
def offering (f : Form) (apiName : String) (values : List String) : List Choice :=
  f.restricted apiName (values.map fun value => { actualValue := some value })

/-- A restriction depends on the values of the listed choices alone. -/
theorem restricted_eq_offering (f : Form) (apiName : String) (listed : List Choice) :
    f.restricted apiName listed = f.offering apiName (listed.filterMap (·.actualValue)) := by
  simp [offering, restricted, List.filterMap_map]

theorem target?_of_named {m : FieldMap} {apiName : String} (h : m.apiName = some apiName) :
    f.target? m = some (.field apiName) := by
  simp [target?, h]

/-! ## One value more on offer -/

theorem visible?_allowLast (f : Form) (s : FormState) (field value : String)
    (maps : List FieldMap) (target : Target) :
    (f.applyMaps s (allowLast field value maps)).visible? target
      = (f.applyMaps s maps).visible? target := by
  obtain ⟨before, m, extended, rfl, hextended, h⟩ | ⟨_, h⟩ := allowLast_cases field value maps
  · obtain ⟨cs, _, hname, rfl⟩ := FieldMap.extend?_eq_some_iff.mp hextended
    have htarget : f.target? m = some (.field field) := target?_of_named hname
    have hextended : f.target? { m with choices := some (cs ++ [{ actualValue := some value }]) }
        = some (.field field) := target?_of_named hname
    simp only [h, applyMaps_append, applyMaps_cons, applyMaps_nil, visible?_applyMap, htarget,
      hextended]
  · have htarget : f.target? (.allowing field value) = some (.field field) := target?_of_named rfl
    rw [h, applyMaps_append, applyMaps_cons, applyMaps_nil, visible?_applyMap, htarget]
    simp [FieldMap.allowing]

theorem choices?_allowLast (f : Form) (s : FormState) (field value other : String)
    (maps : List FieldMap) :
    (f.applyMaps s (allowLast field value maps)).choices? (.field other)
      = if field = other then some (f.offering field (openValues maps field ++ [value]))
        else (f.applyMaps s maps).choices? (.field other) := by
  obtain ⟨before, m, extended, rfl, hextended, h⟩ | ⟨hlast, h⟩ := allowLast_cases field value maps
  · obtain ⟨cs, hcs, hname, rfl⟩ := FieldMap.extend?_eq_some_iff.mp hextended
    have htarget : f.target? m = some (.field field) := target?_of_named hname
    have hextended : f.target? { m with choices := some (cs ++ [{ actualValue := some value }]) }
        = some (.field field) := target?_of_named hname
    simp only [h, applyMaps_append, applyMaps_cons, applyMaps_nil, choices?_applyMap, htarget,
      hextended, Option.some.injEq, Target.field.injEq]
    split
    · next heq =>
      subst heq
      simp [mapChoices, restricted_eq_offering, FieldMap.values, FieldMap.dependents, hname, hcs]
    · rfl
  · have htarget : f.target? (.allowing field value) = some (.field field) := target?_of_named rfl
    rw [h, applyMaps_append, applyMaps_cons, applyMaps_nil, choices?_applyMap, htarget,
      openValues_eq_nil hlast]
    simp only [Option.some.injEq, Target.field.injEq]
    split
    · next heq =>
      subst heq
      simp [mapChoices, restricted_eq_offering, FieldMap.allowing]
    · rfl

theorem visible?_allowAll (f : Form) (s : FormState) (field : String) (values : List String)
    (maps : List FieldMap) (target : Target) :
    (f.applyMaps s (allowAll field values maps)).visible? target
      = (f.applyMaps s maps).visible? target := by
  induction values generalizing maps with
  | nil => rfl
  | cons value rest ih => rw [allowAll_cons, ih, visible?_allowLast]

theorem choices?_allowAll (f : Form) (s : FormState) (field other : String)
    (values : List String) (maps : List FieldMap) :
    (f.applyMaps s (allowAll field values maps)).choices? (.field other)
      = if field = other ∧ values ≠ [] then some (f.offering field (openValues maps field ++ values))
        else (f.applyMaps s maps).choices? (.field other) := by
  induction values generalizing maps with
  | nil => simp
  | cons value rest ih =>
    rw [allowAll_cons, ih, choices?_allowLast, openValues_allowLast]
    by_cases h : field = other
    · cases rest <;> simp [h]
    · simp [h]

end Form

end FormRules
