-- SUMMARY: An evaluation after an update is the whole evaluation without the rules that it does not touch.
import FormRules.Proofs.Condition.Dependence
import FormRules.Proofs.Rule.Compilation

/-!
# Evaluation after an update

An update of more fields touches every rule that an update of fewer fields does, whatever the rules
are made of (`Expr.isTouchedBy_mono`). If all rules can be evaluated, evaluating those that an update
touches gives their outcomes out of all of them, in the same order. Outcomes keep the numbers of
their rules, and these are positions in the list of rules before compilation
(`update_restricts_evaluation`).
-/

namespace FormRules

/-! ## Larger updates touch more -/

namespace Expr

variable {updated more : List String}

theorem isFieldAmong_mono (h : updated ⊆ more) {e : Expr} (he : e.isFieldAmong updated = true) :
    e.isFieldAmong more = true := by
  obtain ⟨apiName, hmem, hfield⟩ := isFieldAmong_iff.mp he
  exact isFieldAmong_iff.mpr ⟨apiName, h hmem, hfield⟩

theorem isTouchedBy_mono (h : updated ⊆ more) {e : Expr} (he : e.isTouchedBy updated = true) :
    e.isTouchedBy more = true := by
  induction e with
  | equal l r =>
    simp only [isTouchedBy, Bool.or_eq_true] at he ⊢
    exact he.imp (isFieldAmong_mono h) (isFieldAmong_mono h)
  | and l r ihl ihr =>
    simp only [isTouchedBy, Bool.and_eq_true] at he ⊢
    exact he.imp ihl ihr
  | or l r ihl ihr =>
    simp only [isTouchedBy, Bool.or_eq_true] at he ⊢
    exact he.imp ihl ihr
  | literal v =>
    -- a truth value is touched by any update, or by none
    cases v with
    | bool b => exact he
    | text | null => cases he
  | field apiName => cases he

/-- In which order an update names its fields, and how often, makes no difference. -/
theorem isTouchedBy_congr {other : List String} (h : ∀ name, name ∈ other ↔ name ∈ updated)
    (e : Expr) : e.isTouchedBy other = e.isTouchedBy updated := by
  apply Bool.eq_iff_iff.mpr
  constructor
  · exact isTouchedBy_mono fun name => (h name).mp
  · exact isTouchedBy_mono fun name => (h name).mpr

end Expr

/-! ## Numbers and positions -/

namespace RuleSet

variable {registry : Registry} {rules : List Rule} {compiled : List CompiledRule}

/-- Compiled rules have their positions as numbers. -/
theorem indices_of_compile (h : compile registry rules = .ok compiled) :
    compiled.map CompiledRule.index = List.range rules.length := by
  have hindex : compiled.map CompiledRule.index = rules.zipIdx.map Prod.snd := by
    apply map_eq_of_forall₂ (compileFrom_eq_ok_iff.mp h)
    intro numbered r hr
    exact hr.index
  rw [hindex, List.zipIdx_map_snd, List.range_eq_range']

/-- A compiled rule stands at the position that is its number, and comes from the rule there. -/
theorem source_of_compile (h : compile registry rules = .ok compiled) {r : CompiledRule}
    (hr : r ∈ compiled) : compiled[r.index]? = some r
      ∧ ∃ source, rules[r.index]? = some source ∧ r.ComesFrom registry r.index source := by
  obtain ⟨i, hi⟩ := List.mem_iff_getElem?.mp hr
  have hrel := rel_getElem? (compileFrom_eq_ok_iff.mp h) i
  rw [hi, List.getElem?_zipIdx] at hrel
  cases hsource : rules[i]? with
  | none => simp [hsource] at hrel
  | some source =>
    have hcomes : r.ComesFrom registry i source := by
      simpa [hsource] using hrel
    obtain rfl := hcomes.index
    exact ⟨hi, source, hsource, hcomes⟩

end RuleSet

/-- Outcomes of some rules of a list: their numbers increase, and each of them has the effects of the
rule at the position that is its number, the fulfilled ones or the rejected ones as it was. -/
structure OutcomesOf (rules : List Rule) (outcomes : List Outcome) : Prop where
  increasing : outcomes.Pairwise fun a b => a.ruleIndex < b.ruleIndex
  effects : ∀ o ∈ outcomes, ∃ r, rules[o.ruleIndex]? = some r
    ∧ o.effects = if o.fulfilled then r.fulfilled else r.rejected

theorem OutcomesOf.sublist {rules : List Rule} {outcomes few : List Outcome}
    (h : OutcomesOf rules outcomes) (hfew : few.Sublist outcomes) : OutcomesOf rules few where
  increasing := h.increasing.sublist hfew
  effects o ho := h.effects o (hfew.subset ho)

namespace Evaluator

variable {registry : Registry} {rules : List Rule} {ev : Evaluator} {values : FormValues}
  {outcomes : List Outcome}

/-- An update touches the rule at a position. -/
def touches (ev : Evaluator) (updated : List String) (index : Nat) : Bool :=
  ev.rules[index]?.any (·.condition.isTouchedBy updated)

theorem compile_of_ofRules (hev : ofRules registry rules = .ok ev) :
    RuleSet.compile registry rules = .ok ev.rules := by
  obtain ⟨compiled, hcompiled, rfl⟩ := map_eq_ok.mp hev
  exact hcompiled

/-- Every rule has an outcome, with the position of the rule as its number. -/
theorem indices_of_evaluate (hev : ofRules registry rules = .ok ev)
    (h : ev.evaluate values = .ok outcomes) :
    outcomes.map Outcome.ruleIndex = List.range rules.length := by
  rw [← RuleSet.indices_of_compile (compile_of_ofRules hev)]
  apply map_eq_of_forall₂ (evaluateAll_eq_ok_iff.mp h)
  intro r o ho
  obtain ⟨t, b, -, -, rfl⟩ := CompiledRule.evaluate_eq_ok_iff.mp ho
  rfl

theorem outcomesOf_evaluate (hev : ofRules registry rules = .ok ev)
    (h : ev.evaluate values = .ok outcomes) : OutcomesOf rules outcomes where
  increasing := by
    apply List.pairwise_map.mp
    rw [indices_of_evaluate hev h]
    exact List.pairwise_lt_range
  effects o ho := by
    obtain ⟨r, hr, hro⟩ := exists_of_mem_forall₂ (evaluateAll_eq_ok_iff.mp h) ho
    obtain ⟨-, source, hsource, hcomes⟩ := RuleSet.source_of_compile (compile_of_ofRules hev) hr
    obtain ⟨t, b, -, -, rfl⟩ := CompiledRule.evaluate_eq_ok_iff.mp hro
    exact ⟨source, hsource, by simp only [hcomes.fulfilled, hcomes.rejected]⟩

/-- If all rules can be evaluated, an update leaves the outcomes of those that it touches. -/
theorem evaluateUpdated_eq_filter (hev : ofRules registry rules = .ok ev)
    (h : ev.evaluate values = .ok outcomes) (updated : List String) :
    ev.evaluateUpdated values updated
      = .ok (outcomes.filter fun o => ev.touches updated o.ruleIndex) := by
  have hplaced : List.Forall₂ (fun r o => r ∈ ev.rules ∧ r.evaluate values = .ok o)
      ev.rules outcomes :=
    (List.forall₂_and_left _ _).mpr ⟨fun r hr => hr, evaluateAll_eq_ok_iff.mp h⟩
  apply evaluateAll_eq_ok_iff.mpr
  refine (List.rel_filter ?_ hplaced).imp fun r o hro => hro.2
  intro r o ⟨hr, hro⟩
  obtain ⟨hposition, -⟩ := RuleSet.source_of_compile (compile_of_ofRules hev) hr
  obtain ⟨t, b, -, -, rfl⟩ := CompiledRule.evaluate_eq_ok_iff.mp hro
  simp [touches, hposition]

theorem touches_mono {updated more : List String} (h : updated ⊆ more) {index : Nat}
    (ht : ev.touches updated index = true) : ev.touches more index = true := by
  unfold touches at ht ⊢
  cases hr : ev.rules[index]? with
  | none => simp [hr] at ht
  | some r =>
    rw [hr] at ht
    exact Expr.isTouchedBy_mono h ht

/-- Only which fields an update names matters. -/
theorem evaluateUpdated_congr (ev : Evaluator) (values : FormValues) {updated other : List String}
    (h : ∀ name, name ∈ other ↔ name ∈ updated) :
    ev.evaluateUpdated values other = ev.evaluateUpdated values updated := by
  simp only [evaluateUpdated, Expr.isTouchedBy_congr h]

end Evaluator

/-- Let an evaluator be made of rules by any registry, and let it evaluate all of them. There is then
one outcome for each rule, with its position as its number and with its effects. After an update the
evaluator gives those of them whose rules the update touches, in their order, and after an update of
more fields these and perhaps others in between. It makes no difference in which order an update
names its fields, and how often. -/
theorem update_restricts_evaluation {registry : Registry} {rules : List Rule} {ev : Evaluator}
    {values : FormValues} {outcomes : List Outcome} {updated more : List String}
    (hev : Evaluator.ofRules registry rules = .ok ev) (h : ev.evaluate values = .ok outcomes)
    (hmore : updated ⊆ more) :
    outcomes.map Outcome.ruleIndex = List.range rules.length ∧ OutcomesOf rules outcomes
    ∧ ∃ few many, ev.evaluateUpdated values updated = .ok few
      ∧ ev.evaluateUpdated values more = .ok many
      ∧ few = outcomes.filter (fun o => ev.touches updated o.ruleIndex)
      ∧ few.Sublist many ∧ OutcomesOf rules few ∧ OutcomesOf rules many
      ∧ ∀ other, (∀ name, name ∈ other ↔ name ∈ updated) →
        ev.evaluateUpdated values other = .ok few := by
  have hall := Evaluator.outcomesOf_evaluate hev h
  have hfew := Evaluator.evaluateUpdated_eq_filter hev h updated
  have hmany := Evaluator.evaluateUpdated_eq_filter hev h more
  refine ⟨Evaluator.indices_of_evaluate hev h, hall, _, _, hfew, hmany, rfl, ?_,
    hall.sublist List.filter_sublist, hall.sublist List.filter_sublist, ?_⟩
  · apply List.monotone_filter_right
    intro o ho
    exact Evaluator.touches_mono hmore ho
  · intro other hother
    exact (ev.evaluateUpdated_congr values hother).trans hfew

/-- The last of the rules has a condition that no built-in function makes; every update touches it. -/
theorem update_restricts_evaluation_of_kind :
    let registry := Registry.default.withParser "always" (.constant (.literal (.bool true)))
    let rules : List Rule := [
      { condition := .is "kind" "company", fulfilled := [.setVisible true (.ofField "vat")] },
      { condition := .is "note" "none", rejected := [.setVisible true (.ofField "note")] },
      { condition := ⟨"always", []⟩, fulfilled := [.allow "size" "big"] }]
    let values := Table.ofList [("kind", "company")]
    ∃ ev outcomes few many, Evaluator.ofRules registry rules = .ok ev
      ∧ ev.evaluate values = .ok outcomes
      ∧ ["kind"] ⊆ ["note", "kind", "note"]
      ∧ ev.evaluateUpdated values ["kind"] = .ok few
      ∧ ev.evaluateUpdated values ["note", "kind", "note"] = .ok many
      ∧ few.map Outcome.ruleIndex = [0, 2] ∧ many.map Outcome.ruleIndex = [0, 1, 2]
      ∧ few.Sublist many ∧ OutcomesOf rules few := by
  intro registry rules values
  let indices := Except.map (ε := EvaluationError) (List.map Outcome.ruleIndex)
  obtain ⟨ev, outcomes, hev, h, htwo, hthree⟩ : ∃ ev outcomes,
      Evaluator.ofRules registry rules = .ok ev ∧ ev.evaluate values = .ok outcomes
      ∧ indices (ev.evaluateUpdated values ["kind"]) = .ok [0, 2]
      ∧ indices (ev.evaluateUpdated values ["note", "kind", "note"]) = .ok [0, 1, 2] :=
    ⟨_, _, rfl, rfl, rfl, rfl⟩
  have hmore : ["kind"] ⊆ ["note", "kind", "note"] := by simp
  obtain ⟨-, -, few, many, hfew, hmany, -, hsub, hof, -, -⟩ := update_restricts_evaluation hev h hmore
  have hfewIndices : few.map Outcome.ruleIndex = [0, 2] := by simpa [indices, hfew] using htwo
  have hmanyIndices : many.map Outcome.ruleIndex = [0, 1, 2] := by
    simpa [indices, hmany] using hthree
  exact ⟨ev, outcomes, few, many, hev, h, hmore, hfew, hmany, hfewIndices, hmanyIndices, hsub, hof⟩

end FormRules
