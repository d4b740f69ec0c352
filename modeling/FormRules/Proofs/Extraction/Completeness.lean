-- SUMMARY: When extraction succeeds, and that it then yields one rule for each choice with maps.
import FormRules.Proofs.Extraction.Reading

/-!
# Completeness of extraction

Extraction succeeds when every key that it reads is there (`Extractor.Complete`), and then no choice
with maps is left out, none counts twice, and the rules stand in document order.
-/

namespace FormRules

/-- A choice that a map lists has a value, and a field of its own or that of the map. -/
def FieldMap.Resolves (map : FieldMap) (dependent : Choice) : Prop :=
  dependent.actualValue.isSome ∧ (dependent.apiName.isSome ∨ map.apiName.isSome)

/-- The choices that a map lists have all that they are asked for exactly when they resolve. -/
theorem FieldMap.met_demands (i j k m : Nat) (map : FieldMap) :
    (∀ d ∈ map.demands i j k m, d.met = true) ↔ ∀ d ∈ map.dependents, map.Resolves d := by
  have hdependent : ∀ d dependent,
      (∀ q ∈ map.dependentDemands (.dependent i j k m d) dependent, q.met = true)
        ↔ map.Resolves dependent := by
    simp [dependentDemands, Resolves, and_comm]
  exact met_of_elements hdependent 0 map.dependents

namespace Extractor

variable (x : Extractor)

/-- A layout has every key that extraction reads. A field needs a name only if one of its choices
has maps, a choice needs a value only if it has maps itself. -/
structure Complete (l : Layout) : Prop where
  choices : ∀ f ∈ l.fields, x.accepts f = true → f.choices.isSome
  names : ∀ f ∈ l.fields, x.accepts f = true → (∃ c ∈ f.choiceList, c.hasMaps = true) →
    f.apiName.isSome
  values : ∀ f ∈ l.fields, x.accepts f = true → ∀ c ∈ f.choiceList, c.hasMaps = true →
    c.actualValue.isSome
  dependents : x.policy = .fulfill → ∀ f ∈ l.fields, x.accepts f = true → ∀ c ∈ f.choiceList,
    ∀ map ∈ c.maps.getD [], ∀ d ∈ map.dependents, map.Resolves d

/-! ## When all demands are met -/

theorem met_mapDemands (i j k : Nat) (maps : List FieldMap) :
    (∀ d ∈ x.mapDemands i j k maps, d.met = true) ↔
      (x.policy = .fulfill → ∀ map ∈ maps, ∀ d ∈ map.dependents, map.Resolves d) := by
  unfold mapDemands
  cases x.policy with
  | ignore => simp
  | fulfill =>
    rw [met_of_elements (FieldMap.met_demands i j k)]
    simp

theorem met_choiceDemands (i j : Nat) (f : Field) (k : Nat) (c : Choice) :
    (∀ d ∈ x.choiceDemands i j f k c, d.met = true) ↔
      (c.hasMaps = true → f.apiName.isSome ∧ c.actualValue.isSome)
      ∧ (x.policy = .fulfill → ∀ map ∈ c.maps.getD [], ∀ d ∈ map.dependents, map.Resolves d) := by
  unfold choiceDemands
  cases hm : c.maps with
  | none => simp [Choice.hasMaps, hm]
  | some maps =>
    rw [List.forall_mem_append, met_mapDemands]
    simp [Choice.hasMaps, hm]

theorem met_fieldDemands (i j : Nat) (f : Field) :
    (∀ d ∈ x.fieldDemands i j f, d.met = true) ↔ (x.accepts f = true → f.choices.isSome
      ∧ ∀ c ∈ f.choiceList, (c.hasMaps = true → f.apiName.isSome ∧ c.actualValue.isSome)
        ∧ (x.policy = .fulfill →
          ∀ map ∈ c.maps.getD [], ∀ d ∈ map.dependents, map.Resolves d)) := by
  unfold fieldDemands
  cases x.accepts f with
  | false => simp
  | true =>
    rw [if_pos rfl, List.forall_mem_append, met_of_elements (x.met_choiceDemands i j f)]
    simp

/-- A layout meets all demands exactly when it has every key that extraction reads. -/
theorem met_demands (l : Layout) : (∀ d ∈ x.demands l, d.met = true) ↔ x.Complete l := by
  rw [demands, l.flatMap_indexedFields x.fieldDemands,
    met_of_elements fun i (s : Section) => met_of_elements (x.met_fieldDemands i) 0 s.fields,
    ← List.forall_mem_flatMap, ← Layout.fields]
  constructor
  · intro h
    exact {
      choices := fun f hf ha => (h f hf ha).1
      names := fun f hf ha hmapped => by
        obtain ⟨c, hc, hm⟩ := hmapped
        exact (((h f hf ha).2 c hc).1 hm).1
      values := fun f hf ha c hc hm => (((h f hf ha).2 c hc).1 hm).2
      dependents := fun hp f hf ha c hc => ((h f hf ha).2 c hc).2 hp }
  · intro h f hf ha
    refine ⟨h.choices f hf ha, fun c hc => ⟨fun hm => ⟨?_, ?_⟩, fun hp => ?_⟩⟩
    · exact h.names f hf ha ⟨c, hc, hm⟩
    · exact h.values f hf ha c hc hm
    · exact h.dependents hp f hf ha c hc

end Extractor

/-- Extraction succeeds exactly on the layouts that have every key that it reads. The rules are then
those of the choices with maps in accepted fields, one for each, in document order. -/
theorem extract_yields_mapped_choices (x : Extractor) (l : Layout) :
    ((∃ rules, x.extract l = .ok rules) ↔ x.Complete l)
    ∧ ∀ rules, x.extract l = .ok rules →
      List.Forall₂ x.Yields (x.mappedChoices l.fields) rules := by
  have hreads := x.reads_extract l
  constructor
  · rw [hreads.succeeds_iff, x.met_demands]
  · intro rules hrules
    exact hreads.post_of_eq_ok hrules

/-- One choice of two has maps here. One map shows a field and leaves it two choices, the other
hides a section. -/
theorem extract_yields_mapped_choices_of_country :
    let x : Extractor := { policy := .fulfill }
    let choice : Choice := {
      actualValue := some "DE"
      maps := some [
        { apiName := some "city", visible := some true
          choices := some [{ actualValue := some "Berlin" }, { actualValue := some "Hamburg" }] },
        { id := some "customs", visible := some false }] }
    let country : Field := {
      apiName := some "country", dataType := "pick_list"
      choices := some [{ displayValue := some "none" }, choice] }
    let layout : Layout := { sections := [{ fields := [{ dataType := "text" }, country] }] }
    let rule : Rule := {
      condition := .is "country" "DE"
      fulfilled := [.setVisible true (.ofField "city"), .allow "city" "Berlin",
        .allow "city" "Hamburg", .setVisible false (.ofSection "customs")] }
    x.extract layout = .ok [rule] ∧ x.Complete layout
      ∧ List.Forall₂ x.Yields [(country, choice)] [rule] := by
  intro x choice country layout rule
  have h : x.extract layout = .ok [rule] := rfl
  have hmapped : x.mappedChoices layout.fields = [(country, choice)] := rfl
  obtain ⟨hcomplete, hyields⟩ := extract_yields_mapped_choices x layout
  rw [hmapped] at hyields
  exact ⟨h, hcomplete.mp ⟨_, h⟩, hyields _ h⟩

end FormRules
