-- SUMMARY: The values with which a form starts are the initial values of its layout.
import FormRules.Proofs.Form.Reachable
import FormRules.Proofs.Layout.FirstDeclaration
import FormRules.Proofs.Layout.InitialValues
import Mathlib.Data.List.Nodup

/-!
# The start of a form

A form starts by setting the initial value of every name that its layout declares. Edits change the
values of no other name, so it starts with exactly the initial values (`Form.values_start`). The
edits that give each name its initial value once, in the order of the first declarations, are
determined by the layout and the provided values (`Layout.Initializes.unique`), and a form starts in
the state to which a run of these leads, if none of them fails
(`start_sets_initial_values_once`).
-/

namespace FormRules

namespace Form

variable {f : Form}

/-- Setting initial values leaves every name that is not set as it was. -/
theorem get?_values_setAll {initial : FormValues} {names : List String} {s s' : FormState}
    (h : f.setAll initial s names = .ok s') (apiName : String) :
    s'.values.get? apiName = if apiName ∈ names then
      (initial.get? apiName).or (s.values.get? apiName) else s.values.get? apiName := by
  induction names generalizing s with
  | nil =>
    obtain rfl : s = s' := by simpa [setAll] using h
    rfl
  | cons first rest ih =>
    cases hi : initial.get? first with
    | none =>
      rw [ih (by simpa [setAll, hi] using h)]
      by_cases hfirst : apiName = first
      · subst hfirst
        simp [hi]
      · simp [hfirst]
    | some value =>
      have hvalues := f.values_set s first value
      obtain ⟨e, _, hfail⟩ | ⟨maps, _, hok⟩ := f.set_cases s first value
      · simp [setAll, hi, hfail] at h
      · rw [hok] at hvalues
        rw [ih (by simpa [setAll, hi, hok] using h), hvalues]
        by_cases hfirst : apiName = first
        · subst hfirst
          simp [hi]
        · simp [hfirst, Table.get?_insert_of_ne]

/-- The edits that give some names their initial values, as far as they have any. -/
def initialEdits (initial : FormValues) (names : List String) : List (String × String) :=
  names.filterMap fun name => (initial.get? name).map fun value => (name, value)

theorem mem_initialEdits {initial : FormValues} {names : List String} {apiName value : String} :
    (apiName, value) ∈ initialEdits initial names
      ↔ apiName ∈ names ∧ initial.get? apiName = some value := by
  simp only [initialEdits, List.mem_filterMap, Option.map_eq_some_iff, Prod.mk.injEq]
  constructor
  · rintro ⟨name, hname, _, hvalue, rfl, rfl⟩
    exact ⟨hname, hvalue⟩
  · rintro ⟨hname, hvalue⟩
    exact ⟨apiName, hname, value, hvalue, rfl, rfl⟩

/-- Setting initial values succeeds if a run of the edits fails nowhere, and leads to the same
state. -/
theorem setAll_eq_ok_iff {initial : FormValues} {names : List String} {s s' : FormState} :
    f.setAll initial s names = .ok s' ↔ f.run s (initialEdits initial names) = (s', []) := by
  induction names generalizing s with
  | nil => simp [setAll, initialEdits, run]
  | cons first rest ih =>
    cases hi : initial.get? first with
    | none => simpa [setAll, initialEdits, hi] using ih
    | some value =>
      have hedits : initialEdits initial (first :: rest)
          = (first, value) :: initialEdits initial rest := by
        simp [initialEdits, hi]
      rw [hedits]
      cases hset : f.set s first value with
      | mk next failure =>
        cases failure with
        | none =>
          simp only [setAll, hi, hset, run, ih, Prod.ext_iff, Option.toList_none, List.nil_append]
        | some e => simp [setAll, hi, hset, run]

/-- A form starts with the initial values of its layout. -/
theorem values_start {provided : FormValues} {s : FormState} (h : f.start provided = .ok s) :
    s.values = f.layout.initialValues provided := by
  ext apiName : 1
  rw [get?_values_setAll h]
  by_cases hdeclared : apiName ∈ f.layout.declaredNames
  · simp [mem_firstOccurrences, hdeclared]
  · have hnone := Layout.field?_eq_none_iff.mpr hdeclared
    simp [mem_firstOccurrences, hdeclared, Layout.get?_initialValues, hnone]

end Form

/-! ## The edits of a start -/

/-- Some edits give each name with an initial value this value, once, and in the order in which the
fields of the layout first declare the names. -/
structure Layout.Initializes (l : Layout) (provided : FormValues) (edits : List (String × String)) :
    Prop where
  exact : ∀ apiName value,
    (apiName, value) ∈ edits ↔ (l.initialValues provided).get? apiName = some value
  once : (edits.map (·.1)).Nodup
  inOrder : edits.Pairwise fun edit other =>
    firstPlace Field.apiName l.fields edit.1 < firstPlace Field.apiName l.fields other.1

namespace Layout

variable {l : Layout} {provided : FormValues} {edits other : List (String × String)}

/-- A layout and the provided values determine these edits. -/
theorem Initializes.unique (h : l.Initializes provided edits)
    (hother : l.Initializes provided other) : edits = other := by
  have hperm : edits.Perm other := by
    apply (List.perm_ext_iff_of_nodup h.once.of_map hother.once.of_map).mpr
    intro ⟨apiName, value⟩
    exact (h.exact apiName value).trans (hother.exact apiName value).symm
  apply hperm.eq_of_pairwise _ h.inOrder hother.inOrder
  intro edit edit' _ _ hlt hgt
  exact absurd hlt (Nat.lt_asymm hgt)

theorem mem_declaredNames_of_get?_initialValues {apiName value : String}
    (h : (l.initialValues provided).get? apiName = some value) : apiName ∈ l.declaredNames := by
  by_contra hundeclared
  simp [get?_initialValues, field?_eq_none_iff.mpr hundeclared] at h

/-- The edits that a start makes are these. -/
theorem initializes_initialEdits (l : Layout) (provided : FormValues) :
    l.Initializes provided
      (Form.initialEdits (l.initialValues provided) (firstOccurrences [] l.declaredNames)) := by
  have hinOrder : (Form.initialEdits (l.initialValues provided)
      (firstOccurrences [] l.declaredNames)).Pairwise fun edit other =>
        firstPlace Field.apiName l.fields edit.1 < firstPlace Field.apiName l.fields other.1 := by
    apply (pairwise_firstOccurrences Field.apiName [] l.fields).filterMap
    intro name other hlt edit hedit edit' hedit'
    obtain ⟨_, _, rfl⟩ := Option.map_eq_some_iff.mp hedit
    obtain ⟨_, _, rfl⟩ := Option.map_eq_some_iff.mp hedit'
    exact hlt
  constructor
  case exact =>
    intro apiName value
    simp only [Form.mem_initialEdits, mem_firstOccurrences, List.not_mem_nil, not_false_eq_true,
      and_true, and_iff_right_iff_imp]
    exact mem_declaredNames_of_get?_initialValues
  case once =>
    apply List.pairwise_map.mpr
    apply hinOrder.imp
    rintro edit edit' hlt heq
    exact absurd (heq ▸ hlt) (Nat.lt_irrefl _)
  case inOrder => exact hinOrder

end Layout

/-- A form starts in a state exactly if this is where its initial edits lead: those that give each
name with an initial value this value, once, and in the order in which the layout first declares the
names, none of which may fail. The form then holds its initial values and nothing else. -/
theorem start_sets_initial_values_once {f : Form} {provided : FormValues} {s : FormState} :
    f.start provided = .ok s ↔
      s.values = f.layout.initialValues provided
      ∧ ∃ edits, f.layout.Initializes provided edits ∧ f.run {} edits = (s, []) := by
  have hedits := f.layout.initializes_initialEdits provided
  constructor
  · intro h
    exact ⟨Form.values_start h, _, hedits, Form.setAll_eq_ok_iff.mp h⟩
  · rintro ⟨_, edits, hinit, hrun⟩
    obtain rfl := hinit.unique hedits
    exact Form.setAll_eq_ok_iff.mpr hrun

end FormRules
