-- SUMMARY: What the policies of extraction have in common, and where only one of them fails.
import FormRules.Proofs.Extraction.Completeness
import FormRules.Proofs.Extraction.FirstMissing
import FormRules.Proofs.Pointwise

/-!
# Policies of extraction

Two extractors that accept the same fields may differ in what becomes of the maps of a choice. If
maps are to be effects then extraction reads more, and so can fail more often; where it succeeds it
yields the rules that it yields if maps are ignored, with effects added to them. A key that is
missing under this policy alone is missing from a choice that a map lists.
-/

namespace FormRules

namespace Extractor

variable (x : Extractor)

/-- An extractor for the same data types under another policy. -/
def under (policy : DependentPolicy) : Extractor := { x with policy }

/-! ## What is asked for -/

variable {x} {l : Layout}

/-- A layout that has every key that is read for effects has every key that is read without them. -/
theorem Complete.under_ignore (h : (x.under .fulfill).Complete l) :
    (x.under .ignore).Complete l where
  choices := h.choices
  names := h.names
  values := h.values
  dependents := fun hpolicy => by cases hpolicy

/-- A key that is read for effects alone is one of a choice that a map lists. -/
theorem Lacks.under_ignore {place : Place} {key : String}
    (h : (x.under .fulfill).Lacks l place key) :
    (x.under .ignore).Lacks l place key ∨ ∃ i j k m d, place = .dependent i j k m d := by
  have hfield : ∀ {i j f}, (x.under .fulfill).FieldAt l i j f → (x.under .ignore).FieldAt l i j f :=
    fun h => ⟨h.accepted, h.position⟩
  have hchoice : ∀ {i j k f c maps}, (x.under .fulfill).ChoiceAt l i j k f c maps →
      (x.under .ignore).ChoiceAt l i j k f c maps :=
    fun h => ⟨hfield h.field, h.position, h.mapped⟩
  cases h with
  | choices hf hnone => exact .inl (.choices (hfield hf) hnone)
  | name hc hnone => exact .inl (.name (hchoice hc) hnone)
  | value hc hnone => exact .inl (.value (hchoice hc) hnone)
  | dependentName | dependentValue => exact .inr ⟨_, _, _, _, _, rfl⟩

/-! ## What is yielded -/

/-- The rules of a choice under the two policies differ in their effects alone. -/
theorem Yields.under_ignore {source : Field × Choice} {r r' : Rule}
    (h : (x.under .fulfill).Yields source r) (h' : (x.under .ignore).Yields source r') :
    r' = { r with fulfilled := [] } := by
  obtain ⟨apiName, actualValue, hname, hvalue, hcondition⟩ := h.condition
  obtain ⟨apiName', actualValue', hname', hvalue', hcondition'⟩ := h'.condition
  cases hname.symm.trans hname'
  cases hvalue.symm.trans hvalue'
  calc
    r' = ⟨r'.condition, r'.fulfilled, r'.rejected⟩ := rfl
    _ = ⟨r.condition, [], r.rejected⟩ := by
      rw [hcondition', hcondition, h'.ignored rfl, h'.rejected, h.rejected]

/-- Where maps can be read for effects, ignoring them yields the same rules without effects. -/
theorem extract_under_ignore {rules : List Rule}
    (h : (x.under .fulfill).extract l = .ok rules) :
    (x.under .ignore).extract l = .ok (rules.map fun r => { r with fulfilled := [] }) := by
  have hreads := (x.under .fulfill).reads_extract l
  have hreads' := (x.under .ignore).reads_extract l
  have hcomplete : (x.under .fulfill).Complete l :=
    ((x.under .fulfill).met_demands l).mp (hreads.succeeds_iff.mp ⟨rules, h⟩)
  obtain ⟨rules', h'⟩ :=
    hreads'.succeeds_iff.mpr (((x.under .ignore).met_demands l).mpr hcomplete.under_ignore)
  have hrules : rules' = rules.map fun r => { r with fulfilled := [] } :=
    eq_map_of_forall₂ (hreads.post_of_eq_ok h) (hreads'.post_of_eq_ok h')
      fun _ _ _ => Yields.under_ignore
  rw [h', hrules]

/-- Where ignoring maps succeeds and reading them fails, what is missing is missing from a choice
that a map lists. -/
theorem lacks_dependent {rules : List Rule} {e : LayoutError}
    (h : (x.under .ignore).extract l = .ok rules)
    (he : (x.under .fulfill).extract l = .error e) :
    ∃ i j k m d key, e = .missingKey key (.dependent i j k m d)
      ∧ (x.under .fulfill).Lacks l (.dependent i j k m d) key := by
  have hmet := ((x.under .ignore).reads_extract l).succeeds_iff.mp ⟨rules, h⟩
  obtain ⟨q, hq, rfl⟩ := ((x.under .fulfill).reads_extract l).firstUnmet?_of_eq_error he
  obtain ⟨place, hpath, hlacks⟩ :=
    Lacks.of_demands (List.mem_of_find?_eq_some hq) (by simpa using List.find?_some hq)
  obtain hshared | ⟨i, j, k, m, d, rfl⟩ := hlacks.under_ignore
  · obtain ⟨b, hb, hunmet, -, -⟩ := hshared.exists_demand
    simp [hmet b hb] at hunmet
  · exact ⟨i, j, k, m, d, q.key, by rw [Demand.error, hpath]; rfl, hlacks⟩

end Extractor

/-- Let maps be ignored by one extractor and be effects for another one that accepts the same
fields. Where the second succeeds, so does the first, with the same rules but for their effects.
Where the first fails, so does the second. Where the second alone fails, it reports a key that is
missing from a choice listed by a map of a choice of an accepted field, by the place of the listed
choice. -/
theorem fulfilling_adds_effects (x : Extractor) (l : Layout) :
    (∀ rules, (x.under .fulfill).extract l = .ok rules →
      (x.under .ignore).extract l = .ok (rules.map fun r => { r with fulfilled := [] }))
    ∧ (∀ e, (x.under .ignore).extract l = .error e →
      ∃ e', (x.under .fulfill).extract l = .error e')
    ∧ ∀ rules e, (x.under .ignore).extract l = .ok rules →
      (x.under .fulfill).extract l = .error e →
      ∃ i j k m d key, e = .missingKey key (.dependent i j k m d)
        ∧ (Path.dependent i j k m d).text = Place.dependentText i j k m d
        ∧ (x.under .fulfill).Lacks l (.dependent i j k m d) key := by
  refine ⟨fun rules => Extractor.extract_under_ignore, fun e => ?_, fun rules e h he => ?_⟩
  · exact exists_error_of_error fun rules h => ⟨_, Extractor.extract_under_ignore h⟩
  · obtain ⟨i, j, k, m, d, key, heq, hlacks⟩ := Extractor.lacks_dependent h he
    exact ⟨i, j, k, m, d, key, heq, Path.text_dependent i j k m d, hlacks⟩

/-- A layout is read under both policies, another one if maps are ignored, and a third one not at
all. In the second one a listed choice has no value. -/
theorem fulfilling_adds_effects_of_country :
    let x : Extractor := {}
    let berlin : Choice := { actualValue := some "Berlin" }
    let layout (listed : List Choice) : Layout := {
      sections := [{ fields := [{ dataType := "text" },
        { apiName := some "country", dataType := "pick_list"
          choices := some [{}, {
            actualValue := some "DE"
            maps := some [{ id := some "customs", visible := some false },
              { apiName := some "city", choices := some listed }] }] }] }] }
    let unlisted : Layout := { sections := [{ fields := [{ dataType := "pick_list" }] }] }
    let rule : Rule := {
      condition := .is "country" "DE"
      fulfilled := [.setVisible false (.ofSection "customs"), .allow "city" "Berlin"] }
    (x.under .fulfill).extract (layout [berlin]) = .ok [rule]
      ∧ (x.under .ignore).extract (layout [berlin]) = .ok [{ condition := rule.condition }]
      ∧ (∃ e', (x.under .fulfill).extract unlisted = .error e')
      ∧ (x.under .fulfill).extract (layout [berlin, {}])
        = .error (.missingKey "actual_value" (.dependent 0 1 1 1 1))
      ∧ (x.under .fulfill).Lacks (layout [berlin, {}]) (.dependent 0 1 1 1 1) "actual_value" := by
  intro x berlin layout unlisted rule
  have hread : (x.under .fulfill).extract (layout [berlin]) = .ok [rule] := rfl
  have herror : (x.under .fulfill).extract (layout [berlin, {}])
      = .error (.missingKey "actual_value" (.dependent 0 1 1 1 1)) := rfl
  obtain ⟨hignoring, -, -⟩ := fulfilling_adds_effects x (layout [berlin])
  obtain ⟨-, hfails, -⟩ := fulfilling_adds_effects x unlisted
  obtain ⟨-, -, hmissing⟩ := fulfilling_adds_effects x (layout [berlin, {}])
  obtain ⟨i, j, k, m, d, key, he, -, hlacks⟩ := hmissing _ _ rfl herror
  obtain ⟨rfl, hpath⟩ : "actual_value" = key ∧ Path.dependent 0 1 1 1 1 = .dependent i j k m d := by
    simpa using he
  have hplace : Place.dependent 0 1 1 1 1 = .dependent i j k m d := Place.path_injective hpath
  rw [← hplace] at hlacks
  exact ⟨hread, hignoring _ hread, hfails _ rfl, herror, hlacks⟩

end FormRules
