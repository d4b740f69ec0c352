-- SUMMARY: The last field that declares a name decides on the value with which the name starts.
import FormRules.Layout.Initial
import FormRules.Proofs.Layout.LastDeclaration
import Mathlib.Data.List.Induction

/-!
# Initial values by name

The fields of a layout are gone through in document order, and each stores its initial value or
forgets its name. What remains of a name is the initial value of the last field that declares it
(`Layout.get?_initialValues`), which is the field that all searches for the name find
(`initial_value_is_of_last_declaration`).
-/

namespace FormRules

/-- A field decides on its own name and on no other. -/
theorem Field.get?_store (provided values : FormValues) (f : Field) (apiName : String) :
    (f.store provided values).get? apiName
      = if f.apiName = some apiName then f.initialValue apiName provided
        else values.get? apiName := by
  unfold Field.store
  cases hname : f.apiName with
  | none => simp
  | some own =>
    by_cases h : apiName = own
    · subst h
      cases hinitial : f.initialValue apiName provided <;> simp [hinitial]
    · cases hinitial : f.initialValue own provided <;>
        simp [hinitial, Table.get?_insert_of_ne, Table.get?_erase, h, Ne.symm h]

namespace Layout

/-- The search for a field finds none exactly when no field declares the name. -/
theorem field?_eq_none_iff {l : Layout} {apiName : String} :
    l.field? apiName = none ↔ apiName ∉ l.declaredNames := by
  simp [field?, declaredNames]

theorem get?_initialValues (l : Layout) (provided : FormValues) (apiName : String) :
    (l.initialValues provided).get? apiName
      = (l.field? apiName).bind (·.initialValue apiName provided) := by
  unfold initialValues field?
  induction l.fields using List.reverseRecOn with
  | nil => rfl
  | append_singleton fields f ih =>
    rw [List.foldl_append, List.foldl_cons, List.foldl_nil, Field.get?_store, ih, List.filter_append]
    by_cases h : f.apiName = some apiName
    · simp [h]
    · simp [h]

end Layout

/-! ## The value with which a field starts -/

/-- The value of a field that a default is, if it is one: a text, or a number or truth value as a
text. -/
inductive Json.Gives : Json → Option String → Prop where
  | text (s : String) : Gives (.text s) (some s)
  | number (n : Number) : Gives (.number n) (some n.text)
  | bool (b : Bool) : Gives (.bool b) (some (if b then "true" else "false"))
  | null : Gives .null none
  | list (items : List Json) : Gives (.list items) none
  | object (entries : List (String × Json)) : Gives (.object entries) none

theorem Json.gives_iff {d : Json} {value : Option String} :
    d.Gives value ↔ d.asFieldValue = value := by
  constructor
  · intro h
    cases h with
    | bool b => cases b <;> rfl
    | _ => rfl
  · rintro rfl
    cases d with
    | text s => exact .text s
    | number n => exact .number n
    | bool b => cases b <;> exact .bool _
    | null => exact .null
    | list items => exact .list items
    | object entries => exact .object entries

namespace Field

/-- A field falls back on its default: it lists no choice, and nothing but an empty text is provided
for its name. -/
structure FallsBack (field : Field) (provided : FormValues) (apiName : String) : Prop where
  unlisted : field.choiceList = []
  unprovided : ∀ value, provided.get? apiName = some value → value = ""

/-- The value with which a field starts, if it has one: that of its first choice, otherwise the text
that is provided for its name, otherwise what its default gives. -/
inductive HasStart (field : Field) (provided : FormValues) (apiName : String) :
    Option String → Prop where
  | choice {first : Choice} {rest : List Choice} : field.choices = some (first :: rest) →
    HasStart field provided apiName first.actualValue
  | provided {value : String} : field.choiceList = [] → provided.get? apiName = some value →
    value ≠ "" → HasStart field provided apiName (some value)
  | default {d : Json} {value : Option String} : field.FallsBack provided apiName →
    field.defaultValue = some d → d.Gives value → HasStart field provided apiName value
  | nothing : field.FallsBack provided apiName → field.defaultValue = none →
    HasStart field provided apiName none

variable {field : Field} {provided : FormValues} {apiName : String}

theorem FallsBack.initialValue (h : field.FallsBack provided apiName) :
    field.initialValue apiName provided = field.defaultValue.bind Json.asFieldValue := by
  unfold Field.initialValue
  rw [h.unlisted]
  cases hp : provided.get? apiName with
  | none => rfl
  | some value => simp [h.unprovided value hp]

theorem hasStart_initialValue (field : Field) (provided : FormValues) (apiName : String) :
    field.HasStart provided apiName (field.initialValue apiName provided) := by
  cases hc : field.choiceList with
  | cons first rest =>
    have hchoices : field.choices = some (first :: rest) := by
      cases hs : field.choices <;> simp_all [choiceList]
    have hvalue : field.initialValue apiName provided = first.actualValue := by
      simp [Field.initialValue, hc]
    exact hvalue ▸ .choice hchoices
  | nil =>
    by_cases hp : ∀ value, provided.get? apiName = some value → value = ""
    · have hback : field.FallsBack provided apiName := ⟨hc, hp⟩
      rw [hback.initialValue]
      cases hd : field.defaultValue with
      | none => exact .nothing hback hd
      | some d => exact .default hback hd (Json.gives_iff.mpr rfl)
    · push Not at hp
      obtain ⟨value, hvalue, hne⟩ := hp
      have hinitial : field.initialValue apiName provided = some value := by
        simp [Field.initialValue, hc, hvalue, hne]
      exact hinitial ▸ .provided hc hvalue hne

/-- A field starts on its initial value and on no other. -/
theorem hasStart_iff {start : Option String} :
    field.HasStart provided apiName start ↔ field.initialValue apiName provided = start := by
  constructor
  · intro h
    cases h with
    | choice hchoices => simp [Field.initialValue, choiceList, hchoices]
    | provided hc hvalue hne => simp [Field.initialValue, hc, hvalue, hne]
    | default hback hd hgives => simp [hback.initialValue, hd, Json.gives_iff.mp hgives]
    | nothing hback hd => simp [hback.initialValue, hd]
  · rintro rfl
    exact hasStart_initialValue field provided apiName

end Field

/-- Either no field declares a name, no search finds one and the name has no initial value, or some
field is the last one to declare it. Then both searches find this field, in the section that holds
it, and it alone decides on which value the name starts. -/
theorem initial_value_is_of_last_declaration (l : Layout) (provided : FormValues)
    (apiName : String) :
    (apiName ∉ l.declaredNames ∧ l.field? apiName = none ∧ l.locate? apiName = none
      ∧ (l.initialValues provided).get? apiName = none)
    ∨ ∃ held field, l.LastDeclares apiName held field
      ∧ l.field? apiName = some field ∧ l.locate? apiName = some (held, field)
      ∧ ∀ start, (l.initialValues provided).get? apiName = start
        ↔ field.HasStart provided apiName start := by
  have hsearch := l.map_locate? apiName
  cases hlocate : l.locate? apiName with
  | none =>
    have hfield : l.field? apiName = none := by rw [← hsearch, hlocate, Option.map_none]
    exact .inl ⟨Layout.field?_eq_none_iff.mp hfield, hfield, rfl,
      by rw [Layout.get?_initialValues, hfield, Option.bind_none]⟩
  | some found =>
    obtain ⟨held, field⟩ := found
    have hfield : l.field? apiName = some field := by rw [← hsearch, hlocate, Option.map_some]
    refine .inr ⟨held, field, Layout.locate?_eq_some_iff.mp hlocate, hfield, rfl, fun start => ?_⟩
    rw [Layout.get?_initialValues, hfield, Option.bind_some, Field.hasStart_iff]

/-- A field without a value of its own takes the value of an earlier field of its name away. -/
example :
    let first : Field := {
      apiName := some "tag", dataType := "text", defaultValue := some (.text "draft") }
    let second : Field := { apiName := some "tag", dataType := "text" }
    let l : Layout := { sections := [{ fields := [first] }, { fields := [second] }] }
    (l.initialValues Table.empty).get? "tag" = none := rfl

end FormRules
