-- SUMMARY: Extracted rules have a bounded depth, so that a file of them can be read.
import FormRules.Proofs.Extraction.Origin
import FormRules.Proofs.Json.Parsing
import FormRules.Rule.Json

/-!
# The depth of extracted rules

No call of an extracted rule has another call among its arguments. The JSON form of extracted rules
is therefore as deep as the form of a rule set has to be, whatever the layout, and far from the depth
at which texts are no longer read (`Extractor.nesting_of_extract`).
-/

namespace FormRules

/-! ## Flat rules -/

/-- A call on operands alone. -/
def Call.IsFlat (c : Call) : Prop := ∀ a ∈ c.args, ∃ o, a = .operand o

/-- A rule whose condition and effects are calls on operands alone. -/
structure Rule.IsFlat (r : Rule) : Prop where
  condition : r.condition.IsFlat
  fulfilled : ∀ c ∈ r.fulfilled, c.IsFlat
  rejected : ∀ c ∈ r.rejected, c.IsFlat

theorem Call.isFlat_is (field value : String) : (Call.is field value).IsFlat := by
  simp [IsFlat, Call.is]

theorem Call.isFlat_allow (field value : String) : (Call.allow field value).IsFlat := by
  simp [IsFlat, Call.allow]

theorem Call.isFlat_setVisible (visible : Bool) (target : Operand) :
    (Call.setVisible visible target).IsFlat := by
  simp [IsFlat, Call.setVisible]

theorem FieldMap.Displays.isFlat {map : FieldMap} {effects : List Call}
    (h : map.Displays effects) : ∀ c ∈ effects, c.IsFlat := by
  cases h with
  | silent | aimless => simp
  | field | area => simpa using Call.isFlat_setVisible _ _

theorem FieldMap.Declares.isFlat {map : FieldMap} {effects : List Call}
    (h : map.Declares effects) : ∀ c ∈ effects, c.IsFlat := by
  obtain ⟨displays, allows, hdisplays, hallows, rfl⟩ := h
  rw [List.forall_mem_append]
  refine ⟨hdisplays.isFlat, fun c hc => ?_⟩
  obtain ⟨dependent, _, apiName, actualValue, _, _, rfl⟩ := exists_of_mem_forall₂ hallows hc
  exact Call.isFlat_allow apiName actualValue

namespace Extractor

variable {x : Extractor}

theorem Yields.isFlat {source : Field × Choice} {r : Rule} (h : x.Yields source r) :
    r.IsFlat := by
  obtain ⟨apiName, actualValue, _, _, hcondition⟩ := h.condition
  refine ⟨hcondition ▸ Call.isFlat_is apiName actualValue, ?_, by simp [h.rejected]⟩
  cases hpolicy : x.policy with
  | ignore => simp [h.ignored hpolicy]
  | fulfill =>
    obtain ⟨parts, hparts, hfulfilled⟩ := h.fulfilled hpolicy
    rw [hfulfilled]
    intro c hc
    obtain ⟨effects, heffects, hc⟩ := List.mem_flatten.mp hc
    obtain ⟨map, _, hmap⟩ := exists_of_mem_forall₂ hparts heffects
    exact hmap.isFlat c hc

theorem isFlat_of_extract {l : Layout} {rules : List Rule} (h : x.extract l = .ok rules) :
    ∀ r ∈ rules, r.IsFlat := by
  intro r hr
  obtain ⟨_, _, hyields⟩ := exists_of_mem_forall₂ ((x.reads_extract l).post_of_eq_ok h) hr
  exact hyields.isFlat

end Extractor

/-! ## Depth -/

theorem Operand.nesting_toJson (o : Operand) : o.toJson.nesting ≤ 1 := by
  obtain ⟨sectionId, field, value⟩ := o
  refine Json.nesting_object_le ?_
  cases sectionId <;> cases field <;> cases value <;> simp [Json.nesting]

theorem Call.IsFlat.nesting_toJson {c : Call} (h : c.IsFlat) : c.toJson.nesting ≤ 3 := by
  obtain ⟨func, args⟩ := c
  have hargs : (Json.list (argumentsToJson args)).nesting ≤ 2 := by
    refine Json.nesting_list_le ?_
    rw [argumentsToJson_eq_map, List.forall_mem_map]
    intro a ha
    obtain ⟨o, rfl⟩ := h a ha
    exact o.nesting_toJson
  refine Json.nesting_object_le ?_
  simp only [List.forall_mem_cons]
  exact ⟨Nat.zero_le 2, hargs, by simp⟩

theorem Rule.IsFlat.nesting_toJson {r : Rule} (h : r.IsFlat) : r.toJson.nesting ≤ 5 := by
  have hcalls : ∀ calls : List Call, (∀ c ∈ calls, c.IsFlat) →
      (Json.list (calls.map Call.toJson)).nesting ≤ 4 := by
    intro calls hflat
    refine Json.nesting_list_le ?_
    rw [List.forall_mem_map]
    exact fun c hc => (hflat c hc).nesting_toJson
  refine Json.nesting_object_le ?_
  simp only [List.forall_mem_cons]
  exact ⟨Nat.le_succ_of_le h.condition.nesting_toJson, hcalls _ h.fulfilled, hcalls _ h.rejected,
    by simp⟩

theorem RuleSet.nesting_toJson {rules : RuleSet} (h : ∀ r ∈ rules, r.IsFlat) :
    rules.toJson.nesting ≤ 6 := by
  refine Json.nesting_list_le ?_
  rw [List.forall_mem_map]
  exact fun r hr => (h r hr).nesting_toJson

/-- The rules of every layout can be read from the text in which they are written. -/
theorem Extractor.nesting_of_extract {x : Extractor} {l : Layout} {rules : RuleSet}
    (h : x.extract l = .ok rules) : rules.toJson.nesting ≤ Json.deepestNesting :=
  (RuleSet.nesting_toJson (isFlat_of_extract h)).trans (by decide)

end FormRules
