-- SUMMARY: The error of a failing extraction: the first key in reading order that the layout lacks.
import FormRules.Proofs.Extraction.Reading
import FormRules.Proofs.Path

/-!
# The first missing key

`Extractor.Lacks` says which objects of a layout lack a key that extraction reads there. A demand
that is not met is a key that an object lacks (`Lacks.of_demands`), and every key that an object
lacks is such a demand (`Lacks.exists_demand`). A failing extraction reports the first of them, by
the place of its object.
-/

namespace FormRules

/-! ## Places -/

/-- An object that extraction reads, by its indices: a field, a choice of a field, or a choice that
a map of a choice lists. -/
inductive Place where
  | field (i j : Nat)
  | choice (i j k : Nat)
  | dependent (i j k m d : Nat)
  deriving DecidableEq, Repr

namespace Place

def path : Place → Path
  | field i j => .field i j
  | choice i j k => .choice i j k
  | dependent i j k m d => .dependent i j k m d

def fieldText (i j : Nat) : String := "sections[" ++ i.repr ++ "].fields[" ++ j.repr ++ "]"

def choiceText (i j k : Nat) : String := fieldText i j ++ ".pick_list_values[" ++ k.repr ++ "]"

def dependentText (i j k m d : Nat) : String :=
  choiceText i j k ++ ".maps[" ++ m.repr ++ "].pick_list_values[" ++ d.repr ++ "]"

/-- The name that a message gives to a place. -/
def text : Place → String
  | field i j => fieldText i j
  | choice i j k => choiceText i j k
  | dependent i j k m d => dependentText i j k m d

end Place

namespace Path

theorem text_field (i j : Nat) : (field i j).text = Place.fieldText i j := by
  have hsection : ((root.key "sections").index i).text
      = "sections" ++ ("[" ++ (i.repr ++ "]")) := by
    simp [root, text, stepsText, stepText, String.append_assoc]
  -- the texts of neighbouring steps are joined on the right
  have hopen : "sections[" = "sections" ++ "[" := rfl
  have hstep : "].fields[" = "]" ++ ("." ++ ("fields" ++ "[")) := rfl
  rw [field, text_element (by simp), hsection, Place.fieldText, hopen, hstep]
  simp only [String.append_assoc]

theorem text_choice (i j k : Nat) : (choice i j k).text = Place.choiceText i j k := by
  have hstep : ".pick_list_values[" = "." ++ ("pick_list_values" ++ "[") := rfl
  rw [choice, text_element (by simp [field]), text_field, Place.choiceText, hstep]
  simp only [String.append_assoc]

theorem text_dependent (i j k m d : Nat) :
    (dependent i j k m d).text = Place.dependentText i j k m d := by
  have hopen : ".maps[" = "." ++ ("maps" ++ "[") := rfl
  have hstep : "].pick_list_values[" = "]" ++ ("." ++ ("pick_list_values" ++ "[")) := rfl
  rw [dependent, text_element (by simp [map]), map, text_element (by simp [choice]), text_choice,
    Place.dependentText, hopen, hstep]
  simp only [String.append_assoc]

end Path

/-- The path of a place is shown as its name. -/
theorem Place.text_path (place : Place) : place.path.text = place.text := by
  cases place with
  | field i j => exact Path.text_field i j
  | choice i j k => exact Path.text_choice i j k
  | dependent i j k m d => exact Path.text_dependent i j k m d

/-- Places that differ have paths that differ. -/
theorem Place.path_injective : Function.Injective Place.path := by
  intro place other h
  cases place <;> cases other <;>
    simp_all [path, Path.field, Path.choice, Path.map, Path.dependent]

theorem Path.isLegible_field (i j : Nat) : (field i j).IsLegible :=
  .index (.word (.index (.word .root (by simp) (by simp)) i) (by simp) (by simp)) j

theorem Path.isLegible_choice (i j k : Nat) : (choice i j k).IsLegible :=
  .index (.word (isLegible_field i j) (by simp) (by simp)) k

theorem Place.isLegible_path (place : Place) : place.path.IsLegible := by
  cases place with
  | field i j => exact Path.isLegible_field i j
  | choice i j k => exact Path.isLegible_choice i j k
  | dependent i j k m d =>
    have hmap : (Path.map i j k m).IsLegible :=
      .index (.word (Path.isLegible_choice i j k) (by simp) (by simp)) m
    exact .index (.word hmap (by simp) (by simp)) d

/-- The name that a message gives to a place leads back to the place. -/
theorem Place.text_injective : Function.Injective Place.text := by
  intro place other h
  rw [← text_path, ← text_path] at h
  exact path_injective (place.isLegible_path.text_inj other.isLegible_path h)

/-! ## Missing keys -/

theorem Layout.mem_indexedFields {l : Layout} {i j : Nat} {f : Field} :
    (i, j, f) ∈ l.indexedFields ↔ ∃ s, l.sections[i]? = some s ∧ s.fields[j]? = some f := by
  constructor
  · intro h
    obtain ⟨⟨s, i⟩, hs, hf⟩ := List.mem_flatMap.mp h
    obtain ⟨⟨f, j⟩, hf, heq⟩ := List.mem_map.mp hf
    cases heq
    exact ⟨s, List.mem_zipIdx_iff_getElem?.mp hs, List.mem_zipIdx_iff_getElem?.mp hf⟩
  · rintro ⟨s, hs, hf⟩
    refine List.mem_flatMap.mpr ⟨(s, i), List.mem_zipIdx_iff_getElem?.mpr hs, ?_⟩
    exact List.mem_map.mpr ⟨(f, j), List.mem_zipIdx_iff_getElem?.mpr hf, rfl⟩

namespace Extractor

variable (x : Extractor) (l : Layout)

/-- An accepted field stands at a position of a layout. -/
structure FieldAt (i j : Nat) (f : Field) : Prop where
  accepted : x.accepts f = true
  position : ∃ s, l.sections[i]? = some s ∧ s.fields[j]? = some f

/-- A choice with maps stands at a position of an accepted field. -/
structure ChoiceAt (i j k : Nat) (f : Field) (c : Choice) (maps : List FieldMap) : Prop where
  field : x.FieldAt l i j f
  position : f.choiceList[k]? = some c
  mapped : c.maps = some maps

/-- A choice stands at a position of a map that is to have effects. -/
structure DependentAt (i j k m d : Nat) (map : FieldMap) (dependent : Choice) : Prop where
  policy : x.policy = .fulfill
  choice : ∃ f c maps, x.ChoiceAt l i j k f c maps ∧ maps[m]? = some map
  position : map.dependents[d]? = some dependent

/-- An object of a layout lacks a key that extraction reads there. -/
inductive Lacks : Place → String → Prop where
  | choices {i j : Nat} {f : Field} : x.FieldAt l i j f → f.choices = none →
    Lacks (.field i j) "pick_list_values"
  | name {i j k : Nat} {f : Field} {c : Choice} {maps : List FieldMap} :
    x.ChoiceAt l i j k f c maps → f.apiName = none → Lacks (.field i j) "api_name"
  | value {i j k : Nat} {f : Field} {c : Choice} {maps : List FieldMap} :
    x.ChoiceAt l i j k f c maps → c.actualValue = none → Lacks (.choice i j k) "actual_value"
  | dependentName {i j k m d : Nat} {map : FieldMap} {dependent : Choice} :
    x.DependentAt l i j k m d map dependent → dependent.apiName = none → map.apiName = none →
    Lacks (.dependent i j k m d) "api_name"
  | dependentValue {i j k m d : Nat} {map : FieldMap} {dependent : Choice} :
    x.DependentAt l i j k m d map dependent → dependent.actualValue = none →
    Lacks (.dependent i j k m d) "actual_value"

variable {x l}

theorem Lacks.of_mapDemands {i j k : Nat} {f : Field} {c : Choice} {maps : List FieldMap}
    (hc : x.ChoiceAt l i j k f c maps) {q : Demand} (hq : q ∈ x.mapDemands i j k maps)
    (hmet : q.met = false) : ∃ place, q.path = place.path ∧ x.Lacks l place q.key := by
  unfold mapDemands at hq
  cases hp : x.policy with
  | ignore => simp [hp] at hq
  | fulfill =>
    rw [hp] at hq
    obtain ⟨⟨map, m⟩, hmap, hq⟩ := List.mem_flatMap.mp hq
    obtain ⟨⟨dependent, d⟩, hdep, hq⟩ := List.mem_flatMap.mp hq
    have hat : x.DependentAt l i j k m d map dependent := {
      policy := hp
      choice := ⟨f, c, maps, hc, List.mem_zipIdx_iff_getElem?.mp hmap⟩
      position := List.mem_zipIdx_iff_getElem?.mp hdep }
    refine ⟨.dependent i j k m d, ?_⟩
    simp only [FieldMap.dependentDemands, List.mem_cons, List.not_mem_nil, or_false] at hq
    rcases hq with rfl | rfl
    · obtain ⟨hown, hmap⟩ : dependent.apiName = none ∧ map.apiName = none := by simpa using hmet
      exact ⟨rfl, .dependentName hat hown hmap⟩
    · exact ⟨rfl, .dependentValue hat (by simpa using hmet)⟩

theorem Lacks.of_choiceDemands {i j k : Nat} {f : Field} {c : Choice} (hf : x.FieldAt l i j f)
    (hk : f.choiceList[k]? = some c) {q : Demand} (hq : q ∈ x.choiceDemands i j f k c)
    (hmet : q.met = false) : ∃ place, q.path = place.path ∧ x.Lacks l place q.key := by
  unfold choiceDemands at hq
  cases hm : c.maps with
  | none => simp [hm] at hq
  | some maps =>
    have hat : x.ChoiceAt l i j k f c maps := ⟨hf, hk, hm⟩
    simp only [hm, List.cons_append, List.nil_append, List.mem_cons] at hq
    rcases hq with rfl | rfl | hq
    · exact ⟨.field i j, rfl, .name hat (by simpa using hmet)⟩
    · exact ⟨.choice i j k, rfl, .value hat (by simpa using hmet)⟩
    · exact Lacks.of_mapDemands hat hq hmet

/-- Where a layout does not meet a demand, an object lacks the key. -/
theorem Lacks.of_demands {q : Demand} (hq : q ∈ x.demands l) (hmet : q.met = false) :
    ∃ place, q.path = place.path ∧ x.Lacks l place q.key := by
  obtain ⟨⟨i, j, f⟩, hf, hq⟩ := List.mem_flatMap.mp hq
  unfold fieldDemands at hq
  cases ha : x.accepts f with
  | false => simp [ha] at hq
  | true =>
    have hat : x.FieldAt l i j f := ⟨ha, Layout.mem_indexedFields.mp hf⟩
    simp only [ha, if_true, List.cons_append, List.nil_append, List.mem_cons] at hq
    rcases hq with rfl | hq
    · exact ⟨.field i j, rfl, .choices hat (by simpa using hmet)⟩
    · obtain ⟨⟨c, k⟩, hc, hq⟩ := List.mem_flatMap.mp hq
      exact Lacks.of_choiceDemands hat (List.mem_zipIdx_iff_getElem?.mp hc) hq hmet

/-! ## Every missing key is asked for -/

theorem FieldAt.mem_demands {i j : Nat} {f : Field} (h : x.FieldAt l i j f) {q : Demand}
    (hq : q ∈ x.fieldDemands i j f) : q ∈ x.demands l :=
  List.mem_flatMap.mpr ⟨(i, j, f), Layout.mem_indexedFields.mpr h.position, hq⟩

theorem ChoiceAt.mem_demands {i j k : Nat} {f : Field} {c : Choice} {maps : List FieldMap}
    (h : x.ChoiceAt l i j k f c maps) {q : Demand} (hq : q ∈ x.choiceDemands i j f k c) :
    q ∈ x.demands l := by
  apply h.field.mem_demands
  rw [fieldDemands, if_pos h.field.accepted]
  exact List.mem_append_right _
    (List.mem_flatMap.mpr ⟨(c, k), List.mem_zipIdx_iff_getElem?.mpr h.position, hq⟩)

theorem DependentAt.mem_demands {i j k m d : Nat} {map : FieldMap} {dependent : Choice}
    (h : x.DependentAt l i j k m d map dependent) {q : Demand}
    (hq : q ∈ map.dependentDemands (.dependent i j k m d) dependent) : q ∈ x.demands l := by
  obtain ⟨f, c, maps, hc, hm⟩ := h.choice
  apply hc.mem_demands
  have hmap : q ∈ map.demands i j k m :=
    List.mem_flatMap.mpr ⟨(dependent, d), List.mem_zipIdx_iff_getElem?.mpr h.position, hq⟩
  have hmaps : q ∈ x.mapDemands i j k maps := by
    rw [mapDemands, h.policy]
    exact List.mem_flatMap.mpr ⟨(map, m), List.mem_zipIdx_iff_getElem?.mpr hm, hmap⟩
  simp [choiceDemands, hc.mapped, hmaps]

/-- Where an object lacks a key, the layout does not meet the demand for it. -/
theorem Lacks.exists_demand {place : Place} {key : String} (h : x.Lacks l place key) :
    ∃ q ∈ x.demands l, q.met = false ∧ q.path = place.path ∧ q.key = key := by
  cases h with
  | @choices i j f hf hnone =>
    have hq : ⟨.field i j, "pick_list_values", false⟩ ∈ x.fieldDemands i j f := by
      simp [fieldDemands, hf.accepted, hnone]
    exact ⟨_, hf.mem_demands hq, rfl, rfl, rfl⟩
  | @name i j k f c maps hc hnone =>
    have hq : ⟨.field i j, "api_name", false⟩ ∈ x.choiceDemands i j f k c := by
      simp [choiceDemands, hc.mapped, hnone]
    exact ⟨_, hc.mem_demands hq, rfl, rfl, rfl⟩
  | @value i j k f c maps hc hnone =>
    have hq : ⟨.choice i j k, "actual_value", false⟩ ∈ x.choiceDemands i j f k c := by
      simp [choiceDemands, hc.mapped, hnone]
    exact ⟨_, hc.mem_demands hq, rfl, rfl, rfl⟩
  | @dependentName i j k m d map dependent hd hown hmap =>
    have hq : ⟨.dependent i j k m d, "api_name", false⟩
        ∈ map.dependentDemands (.dependent i j k m d) dependent := by
      simp [FieldMap.dependentDemands, hown, hmap]
    exact ⟨_, hd.mem_demands hq, rfl, rfl, rfl⟩
  | @dependentValue i j k m d map dependent hd hnone =>
    have hq : ⟨.dependent i j k m d, "actual_value", false⟩
        ∈ map.dependentDemands (.dependent i j k m d) dependent := by
      simp [FieldMap.dependentDemands, hnone]
    exact ⟨_, hd.mem_demands hq, rfl, rfl, rfl⟩

end Extractor

/-- A failing extraction reports a key that an object of the layout lacks, by the place of that
object. All that is asked for before is there, and every other key that an object lacks is asked for
later. -/
theorem extract_reports_first_missing_key {x : Extractor} {l : Layout} {e : LayoutError}
    (h : x.extract l = .error e) :
    ∃ before q after, x.demands l = before ++ q :: after ∧ (∀ b ∈ before, b.met = true)
      ∧ e = .missingKey q.key q.path
      ∧ (∃ place, q.path = place.path ∧ q.path.text = place.text ∧ x.Lacks l place q.key)
      ∧ ∀ place key, x.Lacks l place key → ∃ b ∈ q :: after, b.path = place.path ∧ b.key = key := by
  obtain ⟨q, hq, rfl⟩ := (x.reads_extract l).firstUnmet?_of_eq_error h
  obtain ⟨hunmet, before, after, hsplit, hbefore⟩ := List.find?_eq_some_iff_append.mp hq
  have hmet : ∀ b ∈ before, b.met = true := by simpa using hbefore
  have hmem : q ∈ x.demands l := by simp [hsplit]
  refine ⟨before, q, after, hsplit, hmet, rfl, ?_, fun place key hlacks => ?_⟩
  · obtain ⟨place, hpath, hlacks⟩ := Extractor.Lacks.of_demands hmem (by simpa using hunmet)
    exact ⟨place, hpath, by rw [hpath, place.text_path], hlacks⟩
  · obtain ⟨b, hb, hbmet, hpath, hkey⟩ := hlacks.exists_demand
    rw [hsplit, List.mem_append] at hb
    rcases hb with hb | hb
    · simp [hmet b hb] at hbmet
    · exact ⟨b, hb, hpath, hkey⟩

/-- A choice that a map lists lacks its name and its value, and a later field lacks its choices. -/
theorem extract_reports_first_missing_key_of_dependent :
    let x : Extractor := { policy := .fulfill }
    let choice : Choice := {
      actualValue := some "company"
      maps := some [{ choices := some [{ apiName := some "size", actualValue := some "L" }, {}] }] }
    let layout : Layout := {
      sections := [{ fields := [{ dataType := "text" }] },
        { fields := [
          { apiName := some "kind", dataType := "pick_list", choices := some [{}, choice] },
          { dataType := "pick_list" }] }] }
    x.extract layout = .error (.missingKey "api_name" (.dependent 1 0 1 0 1))
      ∧ (Path.dependent 1 0 1 0 1).text
        = "sections[1].fields[0].pick_list_values[1].maps[0].pick_list_values[1]"
      ∧ x.Lacks layout (.dependent 1 0 1 0 1) "api_name" := by
  intro x choice layout
  have h : x.extract layout = .error (.missingKey "api_name" (.dependent 1 0 1 0 1)) := rfl
  obtain ⟨_, q, _, _, _, he, ⟨place, hpath, htext, hlacks⟩, _⟩ :=
    extract_reports_first_missing_key h
  obtain ⟨hkey, hq⟩ : "api_name" = q.key ∧ Path.dependent 1 0 1 0 1 = q.path := by
    simpa using he
  obtain rfl : place = .dependent 1 0 1 0 1 := Place.path_injective (hpath.symm.trans hq.symm)
  rw [← hkey] at hlacks
  rw [← hq] at htext
  exact ⟨h, htext, hlacks⟩

end FormRules
