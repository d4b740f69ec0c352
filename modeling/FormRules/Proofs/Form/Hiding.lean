-- SUMMARY: Which hidden sections hide their fields, and which do not.
import FormRules.Form.View
import FormRules.Proofs.Form.Reachable
import FormRules.Proofs.Layout.LastDeclaration

/-!
# Hidden sections

A section is hidden when the last map on its `id` says so or, where no map says anything, when its
own flag does (`Section.IsHiddenIn`). The view looks a section up by its `id`, and so finds the flag
of the first section with that `id`. A section hides its fields as long as that flag is its own
(`hidden_section_hides_fields`); the flag of a section without an `id`, or after another one with
the same `id`, is not seen (`flagged_section_shows_fields`).
-/

namespace FormRules

/-- What is said of the visibility of a section: by the last map on its `id`, otherwise by its own
flag. -/
def Section.visibleIn? (held : Section) (s : FormState) : Option Bool :=
  (held.id.bind fun id => s.visible? (.area id)).or held.visible

/-- A section is hidden in a state of the form. -/
def Section.IsHiddenIn (held : Section) (s : FormState) : Prop := held.visibleIn? s = some false

namespace Form

variable {f : Form} {s : FormState} {held : Section} {field : Field} {apiName id : String}

/-- The view shows a section by what is said of it, if the flag under its `id` is its own. -/
theorem isShown_eq (hid : held.id = some id)
    (hflag : s.visible? (.area id) = none → (f.layout.section? id).bind (·.visible) = held.visible) :
    f.isShown s held = (held.visibleIn? s).getD true := by
  unfold isShown isSectionVisible Section.visibleIn?
  simp only [hid, Option.bind_some]
  cases hv : s.visible? (.area id) with
  | none => rw [hflag hv]
  | some visible => rfl

theorem isFieldVisible_eq (hlast : f.layout.LastDeclares apiName held field) (s : FormState) :
    f.isFieldVisible s apiName
      = (f.isShown s held && ((s.visible? (.field apiName)).or field.visible).getD true) := by
  unfold isFieldVisible
  rw [Layout.locate?_eq_some_iff.mpr hlast]

/-- A field that is not shown is not asked for. -/
theorem not_mem_missingRequired (h : f.isFieldVisible s apiName = false) :
    apiName ∉ f.missingRequired s := by
  intro hmem
  have hkept := (List.mem_filter.mp hmem).2
  simp [h] at hkept

end Form

/-- A hidden section hides the fields that it holds, if a map hides it or the flag under its `id` is
its own: no such field is shown, and none is missing. -/
theorem hidden_section_hides_fields {f : Form} {s : FormState} {held : Section} {field : Field}
    {apiName id : String} (hlast : f.layout.LastDeclares apiName held field)
    (hhidden : held.IsHiddenIn s) (hid : held.id = some id)
    (hflag : s.visible? (.area id) = none →
      (f.layout.section? id).bind (·.visible) = held.visible) :
    f.isFieldVisible s apiName = false ∧ apiName ∉ f.missingRequired s := by
  have hshown : f.isShown s held = false := by
    rw [Form.isShown_eq hid hflag, show held.visibleIn? s = some false from hhidden]
    rfl
  have hfield : f.isFieldVisible s apiName = false := by
    rw [Form.isFieldVisible_eq hlast, hshown, Bool.false_and]
  exact ⟨hfield, Form.not_mem_missingRequired hfield⟩

/-- A section that a choice hides, with a required field that another section declares too. -/
theorem hidden_section_hides_fields_of_delivery :
    let pickup : Choice := { actualValue := some "pickup"
                             maps := some [{ id := some "delivery", visible := some false }] }
    let street : Field := { apiName := some "street", dataType := "text", required := true }
    let delivery : Section := { id := some "delivery", visible := some true, fields := [street] }
    let layout : Layout := {
      sections := [{ fields := [street, { apiName := some "mode", dataType := "pick_list"
                                          choices := some [pickup] }] }, delivery] }
    let f : Form := ⟨layout, ⟨[]⟩⟩
    ∃ s, f.start {} = .ok s ∧ delivery.IsHiddenIn s
      ∧ f.isFieldVisible s "street" = false ∧ "street" ∉ f.missingRequired s := by
  intro pickup street delivery layout f
  obtain ⟨s, hs, hvisible⟩ : ∃ s, f.start {} = .ok s
      ∧ s.visible? (.area "delivery") = some false := ⟨_, rfl, rfl⟩
  have hlast : f.layout.LastDeclares "street" delivery street :=
    Layout.locate?_eq_some_iff.mp rfl
  have hhidden : delivery.IsHiddenIn s := by
    simp [Section.IsHiddenIn, Section.visibleIn?, delivery, hvisible]
  exact ⟨s, hs, hhidden,
    hidden_section_hides_fields hlast hhidden rfl (fun _ => rfl)⟩

/-- A section without an `id`, and one after another section with the same `id`: both are flagged as
hidden and show their required fields all the same. -/
theorem flagged_section_shows_fields :
    let street : Field := { apiName := some "street", dataType := "text", required := true }
    let note : Field := { apiName := some "note", dataType := "text", required := true }
    let again : Section := { id := some "delivery", visible := some false, fields := [street] }
    let unnamed : Section := { visible := some false, fields := [note] }
    let f : Form := ⟨{ sections := [{ id := some "delivery" }, again, unnamed] }, ⟨[]⟩⟩
    ∃ s, f.Reachable s
      ∧ f.layout.LastDeclares "street" again street ∧ again.IsHiddenIn s
      ∧ f.isFieldVisible s "street" = true ∧ "street" ∈ f.missingRequired s
      ∧ f.layout.LastDeclares "note" unnamed note ∧ unnamed.IsHiddenIn s
      ∧ f.isFieldVisible s "note" = true ∧ "note" ∈ f.missingRequired s := by
  intro street note again unnamed f
  have hstart : f.start {} = .ok {} := rfl
  exact ⟨{}, .start hstart, Layout.locate?_eq_some_iff.mp rfl, rfl, rfl, by decide,
    Layout.locate?_eq_some_iff.mp rfl, rfl, rfl, by decide⟩

end FormRules
