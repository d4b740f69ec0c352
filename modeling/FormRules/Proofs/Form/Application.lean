-- SUMMARY: What applying maps changes in the state of a form, target by target.
import FormRules.Form.State
import FormRules.Proofs.Layout.LastDeclaration
import Mathlib.Data.List.Induction

/-!
# Applying maps

A map changes what is known of its target and nothing else. One lemma says so for a single map
(`Form.presentation?_applyMap`). Of a list of maps only those on a target matter for it, and of these
the last one that says something (`Form.presentation?_applyMaps_eq`).
-/

namespace FormRules

@[simp] theorem Presentation.update_none (p : Presentation) : p.update none none = p := rfl

theorem Presentation.update_update (p : Presentation) (visible later : Option Bool)
    (choices laterChoices : Option (List Choice)) :
    (p.update visible choices).update later laterChoices
      = p.update (later.or visible) (laterChoices.or choices) := by
  simp [update, Option.or_assoc]

namespace FormState

/-- States with the same values are equal if they know the same of every target. -/
theorem ext_presentation? {s t : FormState} (hvalues : s.values = t.values)
    (h : ∀ target, s.presentation? target = t.presentation? target) : s = t := by
  have hfields : s.fields = t.fields := Table.ext_get? fun apiName => h (.field apiName)
  have hareas : s.areas = t.areas := Table.ext_get? fun id => h (.area id)
  cases s
  cases t
  simp_all

/-- The choices that maps have left a target, if one has listed any. -/
def choices? (s : FormState) (target : Target) : Option (List Choice) :=
  (s.presentation? target).bind (·.choices)

@[simp] theorem values_store (s : FormState) (apiName value : String) :
    (s.store apiName value).values = s.values.insert apiName value := rfl

@[simp] theorem presentation?_store (s : FormState) (apiName value : String) (target : Target) :
    (s.store apiName value).presentation? target = s.presentation? target := by
  cases target <;> rfl

@[simp] theorem visible?_store (s : FormState) (apiName value : String) (target : Target) :
    (s.store apiName value).visible? target = s.visible? target := by
  simp [visible?]

@[simp] theorem choices?_store (s : FormState) (apiName value : String) (target : Target) :
    (s.store apiName value).choices? target = s.choices? target := by
  simp [choices?]

@[simp] theorem values_present (s : FormState) (target : Target) (visible : Option Bool)
    (choices : Option (List Choice)) : (s.present target visible choices).values = s.values := by
  cases target <;> rfl

theorem presentation?_present (s : FormState) (target other : Target) (visible : Option Bool)
    (choices : Option (List Choice)) :
    (s.present target visible choices).presentation? other
      = if target = other then some (((s.presentation? other).getD {}).update visible choices)
        else s.presentation? other := by
  cases target with
  | field apiName =>
    cases other with
    | field otherName =>
      by_cases h : otherName = apiName
      · simp [present, presentation?, h]
      · simp [present, presentation?, Table.get?_insert_of_ne _ h, Ne.symm h]
    | area id => simp [present, presentation?]
  | area id =>
    cases other with
    | field apiName => simp [present, presentation?]
    | area otherId =>
      by_cases h : otherId = id
      · simp [present, presentation?, h]
      · simp [present, presentation?, Table.get?_insert_of_ne _ h, Ne.symm h]

end FormState

namespace Form

variable {f : Form} {s : FormState}

@[simp] theorem values_applyMap (f : Form) (s : FormState) (m : FieldMap) :
    (f.applyMap s m).values = s.values := by
  unfold applyMap
  split
  · rfl
  · exact s.values_present _ _ _

/-- A map puts what it says over what is known of its target. -/
theorem presentation?_applyMap (f : Form) (s : FormState) (m : FieldMap) (target : Target) :
    (f.applyMap s m).presentation? target
      = if f.target? m = some target then
          some (((s.presentation? target).getD {}).update m.visible (f.mapChoices target m))
        else s.presentation? target := by
  unfold applyMap
  cases ht : f.target? m with
  | none => simp
  | some reached =>
    simp only [FormState.presentation?_present, Option.some.injEq]
    by_cases h : reached = target
    · rw [h]
    · rw [if_neg h, if_neg h]

theorem visible?_applyMap (f : Form) (s : FormState) (m : FieldMap) (target : Target) :
    (f.applyMap s m).visible? target
      = if f.target? m = some target then m.visible.or (s.visible? target)
        else s.visible? target := by
  unfold FormState.visible?
  rw [presentation?_applyMap]
  split
  · cases s.presentation? target <;> simp [Presentation.update]
  · rfl

theorem choices?_applyMap (f : Form) (s : FormState) (m : FieldMap) (target : Target) :
    (f.applyMap s m).choices? target
      = if f.target? m = some target then (f.mapChoices target m).or (s.choices? target)
        else s.choices? target := by
  unfold FormState.choices?
  rw [presentation?_applyMap]
  split
  · cases s.presentation? target <;> simp [Presentation.update]
  · rfl

/-- A map without a target changes nothing. -/
theorem applyMap_of_target?_eq_none {m : FieldMap} (h : f.target? m = none) (s : FormState) :
    f.applyMap s m = s := by
  simp [applyMap, h]

/-- The maps of a choice that is made stand in the layout. -/
theorem exists_choice_of_mem_choiceMaps {apiName value : String} {m : FieldMap}
    (h : m ∈ f.choiceMaps apiName value) :
    ∃ field ∈ f.layout.fields, ∃ choice ∈ field.choiceList, m ∈ choice.maps.getD [] := by
  unfold choiceMaps at h
  split at h
  · next choice hchoice =>
    obtain ⟨field, hfield, hfind⟩ := Option.bind_eq_some_iff.mp hchoice
    exact ⟨field, Layout.mem_fields_of_field? hfield, choice, List.mem_of_find?_eq_some hfind, h⟩
  · cases h

/-! ## Lists of maps -/

@[simp] theorem applyMaps_nil (f : Form) (s : FormState) : f.applyMaps s [] = s := rfl

@[simp] theorem applyMaps_cons (f : Form) (s : FormState) (m : FieldMap) (maps : List FieldMap) :
    f.applyMaps s (m :: maps) = f.applyMaps (f.applyMap s m) maps := rfl

theorem applyMaps_append (f : Form) (s : FormState) (maps more : List FieldMap) :
    f.applyMaps s (maps ++ more) = f.applyMaps (f.applyMaps s maps) more :=
  List.foldl_append

@[simp] theorem values_applyMaps (f : Form) (s : FormState) (maps : List FieldMap) :
    (f.applyMaps s maps).values = s.values := by
  induction maps generalizing s with
  | nil => rfl
  | cons m rest ih => rw [applyMaps_cons, ih, values_applyMap]

/-- What holds of a state and is kept by every map holds after a list of maps. -/
theorem applyMaps_induction {P : FormState → Prop} (hmap : ∀ s m, P s → P (f.applyMap s m))
    (h : P s) (maps : List FieldMap) : P (f.applyMaps s maps) := by
  induction maps generalizing s with
  | nil => exact h
  | cons m rest ih => exact ih (hmap s m h)

/-! ## The last map that says something -/

/-- Those of some maps that have a given target. -/
def mapsOn (f : Form) (maps : List FieldMap) (target : Target) : List FieldMap :=
  maps.filter fun m => f.target? m = some target

/-- The last thing that maps on a target say, by a way to read them. -/
def lastSaid? {α : Type} (f : Form) (read : FieldMap → Option α) (maps : List FieldMap)
    (target : Target) : Option α :=
  ((f.mapsOn maps target).filterMap read).getLast?

theorem mapsOn_eq_nil_iff {maps : List FieldMap} {target : Target} :
    f.mapsOn maps target = [] ↔ ∀ m ∈ maps, f.target? m ≠ some target := by
  simp [mapsOn]

theorem mapsOn_concat (f : Form) (maps : List FieldMap) (m : FieldMap) (target : Target) :
    f.mapsOn (maps ++ [m]) target
      = f.mapsOn maps target ++ if f.target? m = some target then [m] else [] := by
  by_cases h : f.target? m = some target <;> simp [mapsOn, h]

theorem lastSaid?_eq_none_iff {α : Type} {read : FieldMap → Option α} {maps : List FieldMap}
    {target : Target} :
    f.lastSaid? read maps target = none ↔ ∀ m ∈ maps, f.target? m = some target → read m = none := by
  simp [lastSaid?, mapsOn]

theorem lastSaid?_concat {α : Type} (f : Form) (read : FieldMap → Option α)
    (maps : List FieldMap) (m : FieldMap) (target : Target) :
    f.lastSaid? read (maps ++ [m]) target
      = if f.target? m = some target then (read m).or (f.lastSaid? read maps target)
        else f.lastSaid? read maps target := by
  rw [lastSaid?, mapsOn_concat]
  by_cases h : f.target? m = some target
  · cases hread : read m <;> simp [h, hread, lastSaid?]
  · simp [h, lastSaid?]

/-- What is known of a target after a list of maps is what the last maps on it say, put over what was
known before. Without a map on it, all stays as it was. -/
theorem presentation?_applyMaps_eq (f : Form) (s : FormState) (maps : List FieldMap)
    (target : Target) :
    (f.applyMaps s maps).presentation? target
      = if f.mapsOn maps target = [] then s.presentation? target
        else some (((s.presentation? target).getD {}).update (f.lastSaid? (·.visible) maps target)
          (f.lastSaid? (f.mapChoices target) maps target)) := by
  induction maps using List.reverseRecOn with
  | nil => simp [mapsOn]
  | append_singleton maps m ih =>
    rw [applyMaps_append, applyMaps_cons, applyMaps_nil, presentation?_applyMap, ih,
      lastSaid?_concat, lastSaid?_concat, mapsOn_concat]
    by_cases h : f.target? m = some target
    · by_cases hnone : f.mapsOn maps target = []
      · simp [h, hnone, lastSaid?]
      · simp [h, hnone, Presentation.update_update]
    · simp [h]

theorem visible?_applyMaps_eq (f : Form) (s : FormState) (maps : List FieldMap) (target : Target) :
    (f.applyMaps s maps).visible? target
      = (f.lastSaid? (·.visible) maps target).or (s.visible? target) := by
  unfold FormState.visible?
  rw [presentation?_applyMaps_eq]
  split
  · next hnone => simp [lastSaid?, hnone]
  · cases s.presentation? target <;> simp [Presentation.update]

theorem choices?_applyMaps_eq (f : Form) (s : FormState) (maps : List FieldMap) (target : Target) :
    (f.applyMaps s maps).choices? target
      = (f.lastSaid? (f.mapChoices target) maps target).or (s.choices? target) := by
  unfold FormState.choices?
  rw [presentation?_applyMaps_eq]
  split
  · next hnone => simp [lastSaid?, hnone]
  · cases s.presentation? target <;> simp [Presentation.update]

/-- Maps leave alone what none of them has as its target. -/
theorem presentation?_applyMaps {maps : List FieldMap} {target : Target}
    (h : ∀ m ∈ maps, f.target? m ≠ some target) (s : FormState) :
    (f.applyMaps s maps).presentation? target = s.presentation? target := by
  rw [presentation?_applyMaps_eq, if_pos (mapsOn_eq_nil_iff.mpr h)]

theorem visible?_applyMaps {maps : List FieldMap} {target : Target}
    (h : ∀ m ∈ maps, f.target? m ≠ some target) (s : FormState) :
    (f.applyMaps s maps).visible? target = s.visible? target := by
  unfold FormState.visible?
  rw [presentation?_applyMaps h]

/-- The last map on a target decides whether it is shown, if it says so. -/
theorem visible?_applyMaps_of_last {maps more : List FieldMap} {m : FieldMap} {target : Target}
    {visible : Bool} (hm : f.target? m = some target) (hvisible : m.visible = some visible)
    (hmore : ∀ other ∈ more, f.target? other ≠ some target) (s : FormState) :
    (f.applyMaps s (maps ++ m :: more)).visible? target = some visible := by
  rw [applyMaps_append, applyMaps_cons, visible?_applyMaps hmore, visible?_applyMap, if_pos hm,
    hvisible, Option.some_or]

end Form

end FormRules
