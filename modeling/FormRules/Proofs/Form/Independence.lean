-- SUMMARY: When two edits can be made in either order.
import FormRules.Proofs.Evaluator.RequiredFields
import FormRules.Proofs.Form.Overwriting

/-!
# Independent edits

An edit depends on the values that the rules it touches read, and it changes what its maps reach. Two
edits of different names can be made in either order if neither gives a value to a field that a rule
touched by the other reads, and no target is reached by both (`independent_edits_commute`).
-/

namespace FormRules

/-! ## What can be done in either order -/

namespace FormState

/-- The values of different names can be stored in either order. -/
theorem store_comm {a b : String} (h : a ≠ b) (s : FormState) (va vb : String) :
    (s.store a va).store b vb = (s.store b vb).store a va := by
  refine ext_presentation? ?_ fun target => by simp
  ext other : 1
  simp only [values_store, Table.get?_insert]
  by_cases ha : other = a
  · simp [ha, h]
  · simp [ha]

end FormState

namespace Form

variable {f : Form} {s : FormState}

/-- Lists of maps that have no target in common can be applied in either order. -/
theorem applyMaps_comm {maps more : List FieldMap}
    (h : ∀ target, f.mapsOn maps target = [] ∨ f.mapsOn more target = []) (s : FormState) :
    f.applyMaps (f.applyMaps s maps) more = f.applyMaps (f.applyMaps s more) maps := by
  refine FormState.ext_presentation? (by simp) fun target => ?_
  simp only [presentation?_applyMaps_eq]
  rcases h target with hmaps | hmore
  · rw [if_pos hmaps, if_pos hmaps]
  · rw [if_pos hmore, if_pos hmore]

/-! ## What an edit depends on -/

/-- No rule that an edit of a name touches reads a field. -/
def Ignores (f : Form) (apiName field : String) : Prop :=
  ∀ r ∈ f.evaluator.rules, r.condition.isTouchedBy [apiName] = true →
    field ∉ r.condition.requiredFields

/-- The targets of the maps that an edit applies. -/
def reached (f : Form) (s : FormState) (apiName value : String) : List Target :=
  (f.appliedMaps (s.values.insert apiName value) apiName value).filterMap f.target?

/-- What follows from an edit does not depend on a field that no touched rule reads. -/
theorem mapsAfter_insert {a b : String} (h : f.Ignores a b) (values : FormValues) (va vb : String) :
    f.mapsAfter (values.insert b vb) a va = f.mapsAfter values a va := by
  unfold mapsAfter Evaluator.evaluateUpdated
  rw [Evaluator.evaluateAll_congr]
  intro r hr apiName hread
  obtain ⟨hmem, htouched⟩ := List.mem_filter.mp hr
  have hne : apiName ≠ b := by
    rintro rfl
    exact h r hmem htouched (Expr.mem_requiredFields.mpr hread)
  exact values.get?_insert_of_ne hne vb

theorem appliedMaps_insert {a b : String} (h : f.Ignores a b) (values : FormValues)
    (va vb : String) : f.appliedMaps (values.insert b vb) a va = f.appliedMaps values a va := by
  unfold appliedMaps
  rw [mapsAfter_insert h]

theorem failure?_insert {a b : String} (h : f.Ignores a b) (values : FormValues) (va vb : String) :
    f.failure? (values.insert b vb) a va = f.failure? values a va := by
  unfold failure?
  rw [mapsAfter_insert h]

/-- An edit after one that its rules ignore: it fails as it would have failed before, and otherwise
its own maps come after those of the first. -/
theorem set_set_of_ignores {a b : String} (hne : a ≠ b) (h : f.Ignores b a) (s : FormState)
    (va vb : String) :
    f.set (f.set s a va).1 b vb
      = (f.applyMaps (f.applyMaps ((s.store a va).store b vb)
            (f.appliedMaps (s.values.insert a va) a va)) (f.appliedMaps (s.values.insert b vb) b vb),
          (f.set s b vb).2) := by
  have hvalues : (f.set s a va).1.values.insert b vb = (s.values.insert b vb).insert a va := by
    rw [values_set]
    exact congrArg FormState.values (FormState.store_comm hne s va vb)
  have hmaps := appliedMaps_insert h (s.values.insert b vb) vb va
  have hfailure := failure?_insert h (s.values.insert b vb) vb va
  have hstored : (f.set s a va).1.store b vb
      = f.applyMaps ((s.store a va).store b vb) (f.appliedMaps (s.values.insert a va) a va) := by
    rw [set_eq_applied, store_applyMaps]
  rw [f.set_eq_applied (f.set s a va).1, hstored, hvalues, hmaps, hfailure, f.set_eq_applied s b vb]

/-- Edits that reach no common target have no maps on a common target. -/
theorem mapsOn_eq_nil_or {a b va vb : String} (h : (f.reached s a va).Disjoint (f.reached s b vb))
    (target : Target) :
    f.mapsOn (f.appliedMaps (s.values.insert a va) a va) target = []
      ∨ f.mapsOn (f.appliedMaps (s.values.insert b vb) b vb) target = [] := by
  simp only [mapsOn_eq_nil_iff]
  by_contra hboth
  push Not at hboth
  obtain ⟨⟨m, hm, hmtarget⟩, other, hother, hotarget⟩ := hboth
  exact h (List.mem_filterMap.mpr ⟨m, hm, hmtarget⟩)
    (List.mem_filterMap.mpr ⟨other, hother, hotarget⟩)

end Form

/-- Let no rule that the one edit touches read the field of the other, and let no target be reached
by the maps of both. Then each of them succeeds or fails in the same way, be it made first or second,
and in either order they end in the same state. -/
theorem independent_edits_commute {f : Form} {s : FormState} {a b va vb : String} (hne : a ≠ b)
    (hab : f.Ignores a b) (hba : f.Ignores b a)
    (hdisjoint : (f.reached s a va).Disjoint (f.reached s b vb)) :
    (f.set (f.set s a va).1 b vb).1 = (f.set (f.set s b vb).1 a va).1
    ∧ (f.set (f.set s b vb).1 a va).2 = (f.set s a va).2
    ∧ (f.set (f.set s a va).1 b vb).2 = (f.set s b vb).2 := by
  rw [Form.set_set_of_ignores hne hba, Form.set_set_of_ignores hne.symm hab]
  refine ⟨?_, rfl, rfl⟩
  rw [FormState.store_comm hne.symm]
  exact Form.applyMaps_comm (Form.mapsOn_eq_nil_or hdisjoint) _

/-- The country decides on the tax number and on the postal code, the kind on the private section and
on the cities. A rule that reads both is touched by neither alone. One that has no verdict on a person
makes that edit fail, before the other one and after it. -/
theorem independent_edits_commute_of_country :
    let germany : Choice := { actualValue := some "DE"
                              maps := some [{ id := some "f-zip", visible := some true }] }
    let company : Choice := { actualValue := some "company"
                              maps := some [{ id := some "private", visible := some false }] }
    let layout : Layout := {
      sections := [
        { fields := [
          { apiName := some "country", dataType := "pick_list", choices := some [germany] },
          { apiName := some "kind", dataType := "pick_list", choices := some [company] }] },
        { id := some "private", fields := [
          { apiName := some "zip", dataType := "text", id := some "f-zip" }] }] }
    let isGermany : Expr := .equal (.field "country") (.literal (.text "DE"))
    let isCompany : Expr := .equal (.field "kind") (.literal (.text "company"))
    let f : Form := ⟨layout, ⟨[
      ⟨0, isGermany, [.setVisible true (.ofField "tax")], []⟩,
      ⟨1, isCompany, [.allow "city" "Berlin"], []⟩,
      ⟨2, .and isGermany isCompany, [.setVisible true (.ofField "tax")], []⟩,
      ⟨3, .and (.or isCompany (.literal .null)) isCompany, [], []⟩]⟩⟩
    f.Ignores "country" "kind" ∧ f.Ignores "kind" "country"
      ∧ (f.reached {} "country" "DE").Disjoint (f.reached {} "kind" "company")
      ∧ (f.set (f.set {} "country" "DE").1 "kind" "company").1
        = (f.set (f.set {} "kind" "company").1 "country" "DE").1
      ∧ (f.set (f.set {} "country" "DE").1 "kind" "person").2 = some ⟨.or, .null⟩ := by
  intro germany company layout isGermany isCompany f
  have hcountry : f.Ignores "country" "kind" := by
    simp [Form.Ignores, f, isGermany, isCompany, Expr.isTouchedBy, Expr.isFieldAmong,
      Expr.mem_requiredFields, Expr.fields]
  have hkind : f.Ignores "kind" "country" := by
    simp [Form.Ignores, f, isGermany, isCompany, Expr.isTouchedBy, Expr.isFieldAmong,
      Expr.mem_requiredFields, Expr.fields]
  have hreached : f.reached {} "country" "DE" = [.field "zip", .field "tax"] := rfl
  have hcompany : f.reached {} "kind" "company" = [.area "private", .field "city"] := rfl
  have hperson : f.reached {} "kind" "person" = [] := rfl
  have hdisjoint : (f.reached {} "country" "DE").Disjoint (f.reached {} "kind" "company") := by
    simp [hreached, hcompany]
  have hnone : (f.reached {} "country" "DE").Disjoint (f.reached {} "kind" "person") := by
    simp [hperson]
  refine ⟨hcountry, hkind, hdisjoint, ?_, ?_⟩
  · exact (independent_edits_commute (by decide) hcountry hkind hdisjoint).1
  · rw [(independent_edits_commute (by decide) hcountry hkind hnone).2.2]
    rfl

end FormRules
