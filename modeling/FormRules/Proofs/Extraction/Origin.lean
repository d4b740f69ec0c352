-- SUMMARY: Where extracted rules come from.
import FormRules.Proofs.Extraction.Reading
import FormRules.Proofs.Pointwise

/-!
# The origin of extracted rules

Extraction yields one rule for each choice with maps of an accepted field, so that every extracted
rule leads back to such a choice (`Extractor.mapped_of_mem_extract`).
-/

namespace FormRules

namespace Extractor

/-- An accepted field of a layout, under its name, offers a value with maps. -/
def Mapped (x : Extractor) (l : Layout) (apiName actualValue : String) : Prop :=
  ∃ field ∈ l.fields, x.accepts field = true ∧ field.apiName = some apiName
    ∧ ∃ choice ∈ field.choiceList, choice.actualValue = some actualValue ∧ choice.hasMaps = true

variable {x : Extractor}

theorem mem_mappedChoices {fields : List Field} {f : Field} {choice : Choice} :
    (f, choice) ∈ x.mappedChoices fields ↔
      f ∈ fields ∧ x.accepts f = true ∧ choice ∈ f.choiceList ∧ choice.hasMaps = true := by
  simp only [mappedChoices, List.mem_flatMap, List.mem_map, List.mem_filter]
  constructor
  · rintro ⟨_, ⟨hf, haccepts⟩, _, ⟨hchoice, hmaps⟩, heq⟩
    cases heq
    exact ⟨hf, haccepts, hchoice, hmaps⟩
  · rintro ⟨hf, haccepts, hchoice, hmaps⟩
    exact ⟨f, ⟨hf, haccepts⟩, choice, ⟨hchoice, hmaps⟩, rfl⟩

/-- Every extracted rule asks for a value with maps, in a field that offers it. -/
theorem mapped_of_mem_extract {l : Layout} {rules : List Rule} (h : x.extract l = .ok rules)
    {r : Rule} (hr : r ∈ rules) :
    ∃ apiName actualValue, x.Mapped l apiName actualValue
      ∧ r.condition = .is apiName actualValue := by
  have hyields := (x.reads_extract l).post_of_eq_ok h
  obtain ⟨⟨f, choice⟩, hmem, hrule⟩ := exists_of_mem_forall₂ hyields hr
  obtain ⟨apiName, actualValue, hname, hvalue, hcond⟩ := hrule.condition
  obtain ⟨hf, haccepts, hchoice, hmaps⟩ := mem_mappedChoices.mp hmem
  exact ⟨apiName, actualValue, ⟨f, hf, haccepts, hname, choice, hchoice, hvalue, hmaps⟩, hcond⟩

end Extractor

end FormRules
