-- SUMMARY: Which required fields are missing, in which order, and when a form is valid.
import FormRules.Form.View
import FormRules.Proofs.Layout.FirstDeclaration

/-!
# Missing values

A name is missing when a field that declares it is required, the view shows it and it has no value.
The view lists these names and no others (`Form.mem_missingRequired`), once each and in the order of
the fields that first require them, so that a form is valid exactly if every required field is hidden
or filled (`missing_names_are_exact`). All of this holds of every state, whichever way it is reached.
-/

namespace FormRules

/-- The name under which a field is required, if it is. -/
def Field.requiredName? (field : Field) : Option String :=
  if field.required then field.apiName else none

theorem Field.requiredName?_eq_some_iff {field : Field} {apiName : String} :
    field.requiredName? = some apiName ↔ field.required = true ∧ field.apiName = some apiName := by
  simp [Field.requiredName?]

/-- A field of a layout requires a value for a name. -/
def Layout.Requires (l : Layout) (apiName : String) : Prop :=
  ∃ field ∈ l.fields, field.required = true ∧ field.apiName = some apiName

/-- A name has no value, or an empty one. -/
def FormState.Lacks (s : FormState) (apiName : String) : Prop :=
  s.values.get? apiName = none ∨ s.values.get? apiName = some ""

theorem FormState.not_lacks_iff {s : FormState} {apiName : String} :
    ¬ s.Lacks apiName ↔ ∃ value, s.values.get? apiName = some value ∧ value ≠ "" := by
  unfold FormState.Lacks
  cases s.values.get? apiName <;> simp

namespace Form

variable {f : Form} {s : FormState} {apiName : String}

theorem isFilled_eq_false_iff : isFilled s apiName = false ↔ s.Lacks apiName := by
  unfold isFilled FormState.Lacks
  cases s.values.get? apiName <;> simp

theorem requiredNames_eq (f : Form) :
    f.requiredNames = firstOccurrences [] (f.layout.fields.filterMap Field.requiredName?) := by
  unfold requiredNames
  rw [List.filterMap_filter]
  rfl

theorem mem_requiredNames : apiName ∈ f.requiredNames ↔ f.layout.Requires apiName := by
  simp only [requiredNames_eq, mem_firstOccurrences, List.mem_filterMap,
    Field.requiredName?_eq_some_iff, List.not_mem_nil, not_false_eq_true, and_true, Layout.Requires]

/-- The missing names are those that are required, shown and without a value. -/
theorem mem_missingRequired : apiName ∈ f.missingRequired s ↔
    f.layout.Requires apiName ∧ f.isFieldVisible s apiName = true ∧ s.Lacks apiName := by
  simp only [missingRequired, List.mem_filter, mem_requiredNames, Bool.and_eq_true,
    Bool.not_eq_true', isFilled_eq_false_iff]

/-- The missing names come in the order of the fields that first require them. -/
theorem pairwise_missingRequired (f : Form) (s : FormState) :
    (f.missingRequired s).Pairwise fun name other =>
      firstPlace Field.requiredName? f.layout.fields name
        < firstPlace Field.requiredName? f.layout.fields other := by
  unfold missingRequired
  rw [requiredNames_eq]
  exact (pairwise_firstOccurrences Field.requiredName? [] f.layout.fields).filter _

/-- A form is valid if every name that it requires is hidden or filled. -/
theorem isValid_iff : f.isValid s = true ↔ ∀ apiName, f.layout.Requires apiName →
    f.isFieldVisible s apiName = false ∨ ¬ s.Lacks apiName := by
  simp only [isValid, List.isEmpty_iff, List.eq_nil_iff_forall_not_mem, mem_missingRequired,
    not_and, ← Bool.not_eq_true, Decidable.imp_iff_not_or]

end Form

/-- In every state of a form, the missing names are exactly those of required fields that the view
shows and that have no value or an empty one. Each is listed once, in the order of the fields that
first require them. The form is valid exactly if every required field that has a name is hidden or
has a value that is not empty. -/
theorem missing_names_are_exact (f : Form) (s : FormState) :
    (∀ apiName, apiName ∈ f.missingRequired s ↔
      f.layout.Requires apiName ∧ f.isFieldVisible s apiName = true ∧ s.Lacks apiName)
    ∧ (f.missingRequired s).Nodup
    ∧ (f.missingRequired s).Pairwise (fun name other =>
        firstPlace Field.requiredName? f.layout.fields name
          < firstPlace Field.requiredName? f.layout.fields other)
    ∧ (f.isValid s = true ↔ ∀ field ∈ f.layout.fields, ∀ apiName,
        field.required = true → field.apiName = some apiName →
          f.isFieldVisible s apiName = false
          ∨ ∃ value, s.values.get? apiName = some value ∧ value ≠ "") := by
  refine ⟨fun apiName => Form.mem_missingRequired, ?once, f.pairwise_missingRequired s, ?valid⟩
  case once =>
    apply (f.pairwise_missingRequired s).imp
    rintro name other hlt rfl
    exact absurd hlt (Nat.lt_irrefl _)
  case valid =>
    rw [Form.isValid_iff]
    constructor
    · intro h field hfield apiName hrequired hname
      apply (h apiName ⟨field, hfield, hrequired, hname⟩).imp_right
      exact FormState.not_lacks_iff.mp
    · rintro h apiName ⟨field, hfield, hrequired, hname⟩
      apply (h field hfield apiName hrequired hname).imp_right
      exact FormState.not_lacks_iff.mpr

/-- A name is listed in the place of its first required field, though its last field shows it. -/
example :
    let hidden : Field := {
      apiName := some "street", dataType := "text", required := true, visible := some false }
    let city : Field := { apiName := some "city", dataType := "text", required := true }
    let shown : Field := { apiName := some "street", dataType := "text" }
    let f : Form := ⟨{ sections := [{ fields := [hidden, city] }, { fields := [shown] }] }, ⟨[]⟩⟩
    f.missingRequired {} = ["street", "city"] := by
  decide

end FormRules
