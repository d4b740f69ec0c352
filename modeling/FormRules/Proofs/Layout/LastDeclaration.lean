-- SUMMARY: The last field that declares a name, and the section that holds it.
import FormRules.Layout.Basic

/-!
# Last declarations

Several fields may declare one name, and the last of them counts. `Layout.LastDeclares` says which
one that is without a search: no later field of its section and no field of a later section declares
the name. The search of `Layout.locate?` finds exactly this field with its section, and so does the
search through all fields (`Layout.map_locate?`).
-/

namespace FormRules

theorem Layout.mem_fields_of_field? {l : Layout} {apiName : String} {field : Field}
    (h : l.field? apiName = some field) : field ∈ l.fields :=
  (List.mem_filter.mp (List.mem_of_getLast? h)).1

/-- None of some fields declares a name. -/
def NoneDeclares (fields : List Field) (apiName : String) : Prop :=
  ∀ field ∈ fields, field.apiName ≠ some apiName

/-- A field of a section is the last one of the layout that declares a name. -/
def Layout.LastDeclares (l : Layout) (apiName : String) (held : Section) (field : Field) : Prop :=
  ∃ before after earlier later, l.sections = before ++ held :: after
    ∧ held.fields = earlier ++ field :: later
    ∧ field.apiName = some apiName
    ∧ NoneDeclares later apiName ∧ ∀ s ∈ after, NoneDeclares s.fields apiName

/-- The last field of a list that declares a name, found from the end. -/
theorem find?_reverse_eq_some_iff {fields : List Field} {apiName : String} {field : Field} :
    fields.reverse.find? (·.apiName = some apiName) = some field ↔
      field.apiName = some apiName
        ∧ ∃ earlier later, fields = earlier ++ field :: later ∧ NoneDeclares later apiName := by
  rw [List.find?_eq_some_iff_append]
  refine and_congr (by simp) ⟨?_, ?_⟩
  · rintro ⟨later, earlier, hsplit, hlater⟩
    refine ⟨earlier.reverse, later.reverse, ?_, fun other hother => ?_⟩
    · simpa using congrArg List.reverse hsplit
    · simpa using hlater other (List.mem_reverse.mp hother)
  · rintro ⟨earlier, later, rfl, hlater⟩
    refine ⟨later.reverse, earlier.reverse, by simp, fun other hother => ?_⟩
    simpa using hlater other (List.mem_reverse.mp hother)

theorem find?_reverse_eq_none_iff {fields : List Field} {apiName : String} :
    fields.reverse.find? (·.apiName = some apiName) = none ↔ NoneDeclares fields apiName := by
  simp [NoneDeclares]

/-- The search from the end finds the last declaration. -/
theorem Layout.locate?_eq_some_iff {l : Layout} {apiName : String} {held : Section}
    {field : Field} :
    l.locate? apiName = some (held, field) ↔ l.LastDeclares apiName held field := by
  unfold locate? LastDeclares
  rw [List.findSome?_eq_some_iff]
  constructor
  · rintro ⟨after, s, before, hsplit, hfound, hafter⟩
    obtain ⟨found, hfind, hpair⟩ := Option.map_eq_some_iff.mp hfound
    obtain ⟨rfl, rfl⟩ : s = held ∧ found = field := by simpa using hpair
    obtain ⟨hname, earlier, later, hfields, hlater⟩ := find?_reverse_eq_some_iff.mp hfind
    refine ⟨before.reverse, after.reverse, earlier, later, ?_, hfields, hname, hlater, ?_⟩
    · simpa using congrArg List.reverse hsplit
    · intro other hother
      have hnone := hafter other (List.mem_reverse.mp hother)
      exact find?_reverse_eq_none_iff.mp (Option.map_eq_none_iff.mp hnone)
  · rintro ⟨before, after, earlier, later, hsections, hfields, hname, hlater, hafter⟩
    have hfind := find?_reverse_eq_some_iff.mpr ⟨hname, earlier, later, hfields, hlater⟩
    refine ⟨after.reverse, held, before.reverse, by simp [hsections], by simp [hfind], ?_⟩
    intro other hother
    have hnone := find?_reverse_eq_none_iff.mpr (hafter other (List.mem_reverse.mp hother))
    simp [hnone]

namespace Layout

variable {l : Layout} {apiName : String}

/-- The search from the end, section by section, and the search through the fields of all sections
find the same field. -/
theorem map_locate? (l : Layout) (apiName : String) :
    (l.locate? apiName).map (·.2) = l.field? apiName := by
  symm
  calc l.field? apiName
      = l.fields.reverse.find? (·.apiName = some apiName) := by
        rw [field?, List.getLast?_eq_head?_reverse, ← List.filter_reverse, List.head?_filter]
    _ = l.sections.reverse.findSome? fun s => s.fields.reverse.find? (·.apiName = some apiName) := by
        rw [fields, List.reverse_flatMap, List.find?_flatMap]
        rfl
    _ = (l.locate? apiName).map (·.2) := by
        rw [locate?, List.map_findSome?]
        simp [Function.comp_def]

/-- The field of a name is the last one that declares it. -/
theorem field?_eq_some_iff {field : Field} :
    l.field? apiName = some field ↔ ∃ held, l.LastDeclares apiName held field := by
  simp [← map_locate?, ← locate?_eq_some_iff]

end Layout

end FormRules
