-- SUMMARY: Which fields and sections maps and effects can change.
import FormRules.Proofs.Form.Edit
import FormRules.Proofs.Form.EffectMaps

/-!
# Targets of a form

A map that goes by an `id` reaches only what the layout declares. A map that names a field by its
`api_name` reaches that field whether or not the layout declares it. So all that a form ever changes
is declared in its layout, or is a field that some map or effect names
(`changed_targets_are_declared_or_named`).
-/

namespace FormRules

/-! ## What layouts declare and name -/

namespace Layout

/-- A layout declares a target: a field of that `api_name`, or a section of that `id`. -/
def Declares (l : Layout) : Target → Prop
  | .field apiName => apiName ∈ l.declaredNames
  | .area id => ∃ held ∈ l.sections, held.id = some id

/-- A map of a choice names a field. -/
def NamesField (l : Layout) (apiName : String) : Prop :=
  ∃ field ∈ l.fields, ∃ choice ∈ field.choiceList, ∃ m ∈ choice.maps.getD [],
    m.apiName = some apiName

/-- The keys of a map or effect lead nowhere: it names no field, and the layout has neither a section
nor a field with its `id`. -/
def Lacks (l : Layout) (apiName id : Option String) : Prop :=
  apiName = none ∧ ∀ known, id = some known →
    (∀ held ∈ l.sections, held.id ≠ some known) ∧ ∀ field ∈ l.fields, field.id ≠ some known

theorem mem_declaredNames {l : Layout} {field : Field} {apiName : String} (h : field ∈ l.fields)
    (hname : field.apiName = some apiName) : apiName ∈ l.declaredNames :=
  List.mem_filterMap.mpr ⟨field, h, hname⟩

end Layout

/-- An effect of a rule names a field. -/
def Evaluator.NamesField (e : Evaluator) (apiName : String) : Prop :=
  ∃ r ∈ e.rules, ∃ effect ∈ r.fulfilled ++ r.rejected, effect.fieldKey? = some apiName

namespace Form

variable {f : Form} {s : FormState}

/-- A map of a choice or an effect of a rule names a field. -/
def NamesField (f : Form) (apiName : String) : Prop :=
  f.layout.NamesField apiName ∨ f.evaluator.NamesField apiName

/-! ## One map -/

/-- A map reaches the field that it names, or else what the layout declares. -/
theorem target?_cases {m : FieldMap} {target : Target} (h : f.target? m = some target) :
    (∃ apiName, m.apiName = some apiName ∧ target = .field apiName)
    ∨ m.apiName = none ∧ f.layout.Declares target := by
  unfold target? at h
  split at h
  · next apiName hname => exact .inl ⟨apiName, hname, (Option.some.inj h).symm⟩
  · next hname =>
    refine .inr ⟨hname, ?_⟩
    split at h
    · cases h
    · next id _ =>
      split at h
      · next hknown =>
        obtain ⟨held, hheld⟩ := Option.isSome_iff_exists.mp hknown
        obtain rfl := Option.some.inj h
        exact ⟨held, List.mem_of_find?_eq_some hheld, by simpa using List.find?_some hheld⟩
      · obtain ⟨field, hfield, hmap⟩ := Option.bind_eq_some_iff.mp h
        obtain ⟨apiName, hname, rfl⟩ := Option.map_eq_some_iff.mp hmap
        exact Layout.mem_declaredNames (List.mem_of_find?_eq_some hfield) hname

theorem target?_eq_none_of_lacks {m : FieldMap} (h : f.layout.Lacks m.apiName m.id) :
    f.target? m = none := by
  obtain ⟨hname, hid⟩ := h
  unfold target?
  cases hm : m.id with
  | none => simp [hname]
  | some id =>
    obtain ⟨hsections, hfields⟩ := hid id hm
    have hsection : f.layout.section? id = none := by
      simpa [Layout.section?] using hsections
    have hfield : f.layout.fields.find? (·.id = some id) = none := by simpa using hfields
    simp [hname, hsection, hfield]

theorem applyMaps_of_lacks {maps : List FieldMap}
    (h : ∀ m ∈ maps, f.layout.Lacks m.apiName m.id) (s : FormState) : f.applyMaps s maps = s := by
  induction maps with
  | nil => rfl
  | cons m rest ih =>
    obtain ⟨hm, hrest⟩ := List.forall_mem_cons.mp h
    rw [applyMaps_cons, applyMap_of_target?_eq_none (target?_eq_none_of_lacks hm), ih hrest]

/-! ## One edit -/

/-- Every field that a map of an edit names is named by a map of a choice or by an effect. -/
theorem EditMaps.namesField {values : FormValues} {apiName value : String} {maps : List FieldMap}
    (h : f.EditMaps values apiName value maps) :
    ∀ m ∈ maps, ∀ name, m.apiName = some name → f.NamesField name := by
  obtain ⟨own, imposed, hown, himposed, rfl⟩ := h
  intro m hm name hname
  rcases List.mem_append.mp hm with hchoice | heffect
  · rw [← choiceMaps_eq_iff.mpr hown] at hchoice
    obtain ⟨field, hfield, choice, hchoice, hmap⟩ := exists_choice_of_mem_choiceMaps hchoice
    exact .inl ⟨field, hfield, choice, hchoice, m, hmap, hname⟩
  · obtain ⟨part, hpart, hmap⟩ := List.mem_flatten.mp heffect
    obtain ⟨r, hr, himposes⟩ := exists_of_mem_forall₂ himposed hpart
    have hrule : r ∈ f.evaluator.rules := (List.mem_filter.mp hr).1
    -- the maps of a rule are those of its effects on one of the two sides
    cases himposes with
    | fulfilled _ _ =>
      obtain ⟨effect, heffect, hkey, _⟩ := exists_effect_of_mem_effectMaps m hmap
      exact .inr ⟨r, hrule, effect, List.mem_append_left _ heffect, hkey.symm.trans hname⟩
    | rejected _ _ =>
      obtain ⟨effect, heffect, hkey, _⟩ := exists_effect_of_mem_effectMaps m hmap
      exact .inr ⟨r, hrule, effect, List.mem_append_right _ heffect, hkey.symm.trans hname⟩

/-! ## All edits -/

/-- All that a state has changed is declared, or is a field that a map or effect names. -/
def Confined (f : Form) (s : FormState) : Prop :=
  ∀ target, (s.presentation? target).isSome →
    f.layout.Declares target ∨ ∃ apiName, target = .field apiName ∧ f.NamesField apiName

theorem Confined.empty (f : Form) : f.Confined {} := by
  intro target hchanged
  cases target <;> simp [FormState.presentation?] at hchanged

theorem Confined.applyMap (h : f.Confined s) {m : FieldMap}
    (hm : ∀ apiName, m.apiName = some apiName → f.NamesField apiName) :
    f.Confined (f.applyMap s m) := by
  intro target hchanged
  rw [presentation?_applyMap] at hchanged
  split at hchanged
  · next htarget =>
    obtain ⟨apiName, hname, rfl⟩ | ⟨_, hdeclared⟩ := target?_cases htarget
    · exact .inr ⟨apiName, rfl, hm apiName hname⟩
    · exact .inl hdeclared
  · exact h target hchanged

theorem Confined.applyMaps (h : f.Confined s) {maps : List FieldMap}
    (hmaps : ∀ m ∈ maps, ∀ apiName, m.apiName = some apiName → f.NamesField apiName) :
    f.Confined (f.applyMaps s maps) := by
  induction maps generalizing s with
  | nil => exact h
  | cons m rest ih =>
    obtain ⟨hm, hrest⟩ := List.forall_mem_cons.mp hmaps
    exact ih (h.applyMap hm) hrest

theorem Confined.set (h : f.Confined s) (apiName value : String) :
    f.Confined (f.set s apiName value).1 := by
  have hstore : f.Confined (s.store apiName value) := by simpa [Confined] using h
  obtain ⟨e, _, hset⟩ | ⟨maps, hmaps, hset⟩ := f.set_cases s apiName value
  · rw [hset]
    exact hstore
  · rw [hset]
    exact hstore.applyMaps (mapsAfter_eq_ok_iff.mp hmaps).namesField

theorem Reachable.confined (h : f.Reachable s) : f.Confined s :=
  h.induction (Confined.empty f) fun _ apiName value hs => hs.set apiName value

end Form

/-- What a reachable state has changed is declared in the layout, or is a field that a map of a
choice or an effect of a rule names. A map, or a list of effects, that names no field and whose `id`
the layout does not have changes nothing. -/
theorem changed_targets_are_declared_or_named {f : Form} {s : FormState} (h : f.Reachable s) :
    (∀ target, (s.presentation? target).isSome →
      f.layout.Declares target ∨ ∃ apiName, target = .field apiName ∧ f.NamesField apiName)
    ∧ (∀ m : FieldMap, f.layout.Lacks m.apiName m.id → f.applyMap s m = s)
    ∧ ∀ effects : List Call, (∀ effect ∈ effects, f.layout.Lacks effect.fieldKey? effect.sectionKey?) →
      f.applyMaps s (effectMaps effects) = s := by
  refine ⟨h.confined, fun m hm => ?_, fun effects heffects => ?_⟩
  · exact Form.applyMap_of_target?_eq_none (Form.target?_eq_none_of_lacks hm) s
  · refine Form.applyMaps_of_lacks (fun m hm => ?_) s
    obtain ⟨effect, hmem, hname, hid⟩ := exists_effect_of_mem_effectMaps m hm
    obtain ⟨hnone, hlacks⟩ := heffects effect hmem
    exact ⟨hname.trans hnone, hid (hname.trans hnone) ▸ hlacks⟩

/-- A choice whose maps go by an `id`: one to a section, one to a field, and one nowhere. -/
theorem changed_targets_are_declared_or_named_by_id :
    let hide (id : String) : FieldMap := { id := some id, visible := some false }
    let company : Choice := { actualValue := some "company"
                              maps := some [hide "private", hide "f-birth", hide "nowhere"] }
    let layout : Layout := {
      sections := [
        { id := some "private", fields := [{ apiName := some "kind", dataType := "pick_list"
                                             choices := some [company] }] },
        { fields := [{ apiName := some "birth", dataType := "text", id := some "f-birth" }] }] }
    let f : Form := ⟨layout, ⟨[]⟩⟩
    ∃ s, f.Reachable s ∧ (s.presentation? (.area "private")).isSome
      ∧ (∃ held ∈ layout.sections, held.id = some "private")
      ∧ f.applyMap s (hide "nowhere") = s := by
  intro hide company layout f
  obtain ⟨s, hs, hchanged⟩ : ∃ s, f.start {} = .ok s
      ∧ (s.presentation? (.area "private")).isSome := ⟨_, rfl, rfl⟩
  have hreach : f.Reachable s := .start hs
  obtain ⟨hdeclared, hnothing, _⟩ := changed_targets_are_declared_or_named hreach
  refine ⟨s, hreach, hchanged, ?_, hnothing _ ⟨rfl, ?_⟩⟩
  · obtain hheld | ⟨apiName, hfield, _⟩ := hdeclared _ hchanged
    · exact hheld
    · cases hfield
  · rintro id ⟨⟩
    simp [f, layout, Layout.fields]

/-- A choice with a map that names a field which the layout does not have: the form holds what the
map says of it. -/
theorem undeclared_target_is_changed :
    let ghost : FieldMap := { apiName := some "ghost", visible := some false }
    let company : Choice := { actualValue := some "company", maps := some [ghost] }
    let kind : Field := { apiName := some "kind", dataType := "pick_list", choices := some [company] }
    let f : Form := ⟨{ sections := [{ id := some "main", fields := [kind] }] }, ⟨[]⟩⟩
    ∃ s, f.Reachable s ∧ (s.presentation? (.field "ghost")).isSome
      ∧ ¬ f.layout.Declares (.field "ghost") := by
  intro ghost company kind f
  obtain ⟨s, hs, hchanged⟩ : ∃ s, f.start {} = .ok s
      ∧ (s.presentation? (.field "ghost")).isSome := ⟨_, rfl, rfl⟩
  exact ⟨s, .start hs, hchanged, by simp [f, kind, Layout.Declares, Layout.declaredNames, Layout.fields]⟩

end FormRules
