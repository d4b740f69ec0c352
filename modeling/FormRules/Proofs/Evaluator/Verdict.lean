-- SUMMARY: The verdicts of an evaluator on its rules, and that they are what the rules mean.
import FormRules.Evaluator
import FormRules.Proofs.Condition.Meaning
import FormRules.Proofs.Condition.Steps
import FormRules.Proofs.Pointwise

/-!
# Verdicts

A verdict is an outcome without its reason. Rules whose conditions are compiled from built-in
functions are evaluated without an error, each to its verdict (`WellTyped.evaluate`), and the
verdict on a compiled rule is the one that its source means (`Evaluator.evaluate_of_ofRules`).
-/

namespace FormRules

/-! ## Outcomes rule by rule -/

/-- A rule has an outcome if its condition comes to a truth value, and the effects follow that. -/
theorem CompiledRule.evaluate_eq_ok_iff {values : FormValues} {r : CompiledRule} {o : Outcome} :
    r.evaluate values = .ok o ↔ ∃ t b, r.condition.evaluate values = .ok t ∧ t.outcome = .bool b
      ∧ o = ⟨r.index, b, if b then r.fulfilled else r.rejected, t.reason⟩ := by
  simp only [CompiledRule.evaluate, bind_eq_ok, Expr.asBool_eq_ok, pure_eq_ok, Except.ok.injEq]
  constructor
  · intro ⟨t, ht, b, hb, h⟩
    exact ⟨t, b, ht, hb, h.symm⟩
  · intro ⟨t, b, ht, hb, h⟩
    exact ⟨t, ht, b, hb, h.symm⟩

namespace Evaluator

variable {values : FormValues}

theorem evaluateAll_eq_ok_iff {rules : List CompiledRule} {outcomes : List Outcome} :
    evaluateAll values rules = .ok outcomes
      ↔ List.Forall₂ (fun r o => r.evaluate values = .ok o) rules outcomes := by
  induction rules generalizing outcomes with
  | nil => simp [evaluateAll, eq_comm]
  | cons r rest ih =>
    simp only [evaluateAll, bind_eq_ok, pure_eq_ok, Except.ok.injEq, ih]
    constructor
    · intro ⟨o, ho, others, hothers, h⟩
      subst h
      exact .cons ho hothers
    · intro h
      cases h with
      | cons ho hothers => exact ⟨_, ho, _, hothers, rfl⟩

end Evaluator

/-! ## Verdicts on rules -/

/-- What an outcome says, without the reason that it gives. -/
structure Verdict where
  ruleIndex : Nat
  fulfilled : Bool
  effects : List Call

/-- The verdict on a rule whose condition holds or does not hold: the effects follow it. -/
def Verdict.ofTruth (ruleIndex : Nat) (holds : Bool) (fulfilled rejected : List Call) : Verdict :=
  ⟨ruleIndex, holds, if holds then fulfilled else rejected⟩

def Outcome.verdict (o : Outcome) : Verdict := ⟨o.ruleIndex, o.fulfilled, o.effects⟩

/-- The verdict that an expression decides. -/
def CompiledRule.verdict (values : FormValues) (r : CompiledRule) : Verdict :=
  .ofTruth r.index (r.condition.holds values) r.fulfilled r.rejected

/-- The verdict that the condition of a rule means. -/
def Rule.verdict (vocabulary : Vocabulary) (values : FormValues) (index : Nat) (r : Rule) :
    Verdict :=
  .ofTruth index (r.condition.holds vocabulary values) r.fulfilled r.rejected

theorem CompiledRule.evaluate_verdict {r : CompiledRule} (h : r.condition.IsCondition)
    (values : FormValues) :
    (r.evaluate values).map Outcome.verdict = .ok (r.verdict values) := by
  obtain ⟨t, ht, hto⟩ := h.evaluate values
  simp [CompiledRule.evaluate, ht, hto, Outcome.verdict, CompiledRule.verdict, Verdict.ofTruth]

namespace Evaluator

/-- Every rule of an evaluator has a condition. -/
def WellTyped (e : Evaluator) : Prop := ∀ r ∈ e.rules, r.condition.IsCondition

theorem evaluateAll_verdicts (values : FormValues) {rules : List CompiledRule}
    (h : ∀ r ∈ rules, r.condition.IsCondition) :
    (evaluateAll values rules).map (List.map Outcome.verdict)
      = .ok (rules.map (CompiledRule.verdict values)) := by
  induction rules with
  | nil => rfl
  | cons r rest ih =>
    have hr := CompiledRule.evaluate_verdict (h r (by simp)) values
    have hrest := ih fun r hr => h r (List.mem_cons_of_mem _ hr)
    obtain ⟨outcome, ho, hov⟩ := map_eq_ok.mp hr
    obtain ⟨others, hos, hosv⟩ := map_eq_ok.mp hrest
    simp [evaluateAll, ho, hos, hov, hosv]

/-- Evaluation of well-typed rules gives one verdict for each, in their order. -/
theorem WellTyped.evaluate {e : Evaluator} (h : e.WellTyped) (values : FormValues) :
    ∃ outcomes, e.evaluate values = .ok outcomes
      ∧ outcomes.map Outcome.verdict = e.rules.map (CompiledRule.verdict values) :=
  map_eq_ok.mp (evaluateAll_verdicts values h)

/-- Evaluation after an update gives one verdict for each rule that the update touches. -/
theorem WellTyped.evaluateUpdated {e : Evaluator} (h : e.WellTyped) (values : FormValues)
    (updated : List String) :
    ∃ outcomes, e.evaluateUpdated values updated = .ok outcomes
      ∧ outcomes.map Outcome.verdict
        = (e.rules.filter (·.condition.isTouchedBy updated)).map (CompiledRule.verdict values) :=
  WellTyped.evaluate (e := ⟨e.rules.filter (·.condition.isTouchedBy updated)⟩)
    (fun r hr => h r (List.mem_filter.mp hr).1) values

end Evaluator

/-! ## Compiled rules -/

section

variable {registry : Registry} {vocabulary : Vocabulary}

theorem RuleSet.compileFrom_cons_eq_ok {index : Nat} {r : Rule} {rest : List Rule}
    {compiled : List CompiledRule} :
    compileFrom registry index (r :: rest) = .ok compiled ↔
      ∃ e others, r.condition.compile registry = .ok e
        ∧ compileFrom registry (index + 1) rest = .ok others
        ∧ compiled = ⟨index, e, r.fulfilled, r.rejected⟩ :: others := by
  simp only [compileFrom, Rule.compile, bind_eq_ok, map_eq_ok, pure_eq_ok, Except.ok.injEq]
  constructor
  · rintro ⟨_, ⟨e, he, rfl⟩, others, hothers, rfl⟩
    exact ⟨e, others, he, hothers, rfl⟩
  · rintro ⟨e, others, he, hothers, rfl⟩
    exact ⟨_, ⟨e, he, rfl⟩, others, hothers, rfl⟩

theorem RuleSet.compileFrom_succeeds {rules : List Rule}
    (h : ∀ r ∈ rules, ∃ e, r.condition.compile registry = .ok e) (index : Nat) :
    ∃ compiled, compileFrom registry index rules = .ok compiled := by
  induction rules generalizing index with
  | nil => exact ⟨[], rfl⟩
  | cons r rest ih =>
    obtain ⟨⟨e, he⟩, hrest⟩ := List.forall_mem_cons.mp h
    obtain ⟨others, hothers⟩ := ih hrest (index + 1)
    exact ⟨_, compileFrom_cons_eq_ok.mpr ⟨e, others, he, hothers, rfl⟩⟩

theorem RuleSet.compileFrom_append_eq_ok {index : Nat} {rules more : List Rule}
    {compiled : List CompiledRule} :
    compileFrom registry index (rules ++ more) = .ok compiled ↔
      ∃ first second, compileFrom registry index rules = .ok first
        ∧ compileFrom registry (index + rules.length) more = .ok second
        ∧ compiled = first ++ second := by
  induction rules generalizing index compiled with
  | nil => simp [compileFrom]
  | cons r rest ih =>
    rw [List.cons_append, compileFrom_cons_eq_ok]
    have hindex : index + 1 + rest.length = index + (r :: rest).length := by
      simp only [List.length_cons]
      omega
    constructor
    · rintro ⟨e, others, he, hothers, rfl⟩
      obtain ⟨first, second, hfirst, hsecond, rfl⟩ := ih.mp hothers
      exact ⟨_, second, compileFrom_cons_eq_ok.mpr ⟨e, first, he, hfirst, rfl⟩,
        hindex ▸ hsecond, rfl⟩
    · rintro ⟨whole, second, hwhole, hsecond, rfl⟩
      obtain ⟨e, first, he, hfirst, rfl⟩ := compileFrom_cons_eq_ok.mp hwhole
      exact ⟨e, first ++ second, he, ih.mpr ⟨first, second, hfirst, hindex ▸ hsecond, rfl⟩, rfl⟩

/-- A compiled rule comes from one of the rules. -/
theorem RuleSet.exists_source {rules : List Rule} {index : Nat} {compiled : List CompiledRule}
    (h : compileFrom registry index rules = .ok compiled) {r : CompiledRule} (hr : r ∈ compiled) :
    ∃ source ∈ rules, source.compile registry r.index = .ok r := by
  induction rules generalizing index compiled with
  | nil =>
    obtain rfl : [] = compiled := by simpa [compileFrom] using h
    cases hr
  | cons first rest ih =>
    obtain ⟨e, others, he, hothers, rfl⟩ := compileFrom_cons_eq_ok.mp h
    rcases List.mem_cons.mp hr with rfl | hmem
    · exact ⟨first, by simp, map_eq_ok.mpr ⟨e, he, rfl⟩⟩
    · obtain ⟨source, hsource, hcompile⟩ := ih hothers hmem
      exact ⟨source, List.mem_cons_of_mem _ hsource, hcompile⟩

theorem RuleSet.isCondition_of_compileFrom (hs : registry.Speaks vocabulary) {rules : List Rule}
    {index : Nat} {compiled : List CompiledRule}
    (h : compileFrom registry index rules = .ok compiled) :
    ∀ r ∈ compiled, r.condition.IsCondition := by
  intro r hr
  obtain ⟨source, _, hcompile⟩ := exists_source h hr
  obtain ⟨e, he, hcompiled⟩ := map_eq_ok.mp hcompile
  exact hcompiled ▸ Call.isCondition_of_compile hs he

/-- Compiled rules have the verdicts that their sources mean, numbered in their order. -/
theorem RuleSet.verdicts_of_compileFrom (hs : registry.Speaks vocabulary) {rules : List Rule}
    {index : Nat} {compiled : List CompiledRule}
    (h : compileFrom registry index rules = .ok compiled) (values : FormValues) :
    compiled.map (CompiledRule.verdict values)
      = (rules.zipIdx index).map fun (r, i) => r.verdict vocabulary values i := by
  induction rules generalizing index compiled with
  | nil =>
    obtain rfl : [] = compiled := by simpa [compileFrom] using h
    rfl
  | cons r rest ih =>
    obtain ⟨e, others, he, hothers, rfl⟩ := compileFrom_cons_eq_ok.mp h
    simp only [List.map_cons, List.zipIdx_cons, ih hothers, CompiledRule.verdict, Rule.verdict,
      Call.holds_of_compile hs he]

theorem Evaluator.wellTyped_of_ofRules (hs : registry.Speaks vocabulary) {rules : List Rule}
    {ev : Evaluator} (h : Evaluator.ofRules registry rules = .ok ev) : ev.WellTyped := by
  obtain ⟨compiled, hc, rfl⟩ := map_eq_ok.mp h
  exact RuleSet.isCondition_of_compileFrom hs hc

/-- An evaluator gives the verdicts that its rules mean, in their order. -/
theorem Evaluator.evaluate_of_ofRules (hs : registry.Speaks vocabulary) {rules : List Rule}
    {ev : Evaluator} (h : Evaluator.ofRules registry rules = .ok ev) (values : FormValues) :
    ∃ outcomes, ev.evaluate values = .ok outcomes ∧ outcomes.map Outcome.verdict
      = rules.zipIdx.map fun (r, i) => r.verdict vocabulary values i := by
  obtain ⟨outcomes, ho, hv⟩ := (wellTyped_of_ofRules hs h).evaluate values
  obtain ⟨compiled, hc, rfl⟩ := map_eq_ok.mp h
  exact ⟨outcomes, ho, hv.trans (RuleSet.verdicts_of_compileFrom hs hc values)⟩

theorem Evaluator.ofRules_succeeds {rules : List Rule}
    (h : ∀ r ∈ rules, ∃ e, r.condition.compile registry = .ok e) :
    ∃ ev, Evaluator.ofRules registry rules = .ok ev := by
  obtain ⟨compiled, hc⟩ := RuleSet.compileFrom_succeeds h 0
  exact ⟨⟨compiled⟩, map_eq_ok.mpr ⟨compiled, hc, rfl⟩⟩

end

/-- Rules whose conditions the default registry compiles make an evaluator. For any values it gives,
in their order, the verdicts that the rules mean. -/
theorem evaluate_gives_meaning {rules : List Rule}
    (h : ∀ r ∈ rules, ∃ e, r.condition.compile .default = .ok e) :
    ∃ ev, Evaluator.ofRules .default rules = .ok ev ∧
      ∀ values, ∃ outcomes, ev.evaluate values = .ok outcomes ∧ outcomes.map Outcome.verdict
        = rules.zipIdx.map fun (r, i) => r.verdict Builtin.ofName? values i := by
  obtain ⟨ev, hev⟩ := Evaluator.ofRules_succeeds h
  exact ⟨ev, hev, Evaluator.evaluate_of_ofRules Registry.default_speaks hev⟩

/-- A nested disjunction, with an empty conjunction at its end, for a person in a country. -/
theorem evaluate_gives_meaning_nested :
    let rule : Rule := {
      condition := ⟨"or", [.call (.is "kind" "company"),
        .call ⟨"and", [.call (.is "kind" "person"), .call (.is "country" "DE"),
          .call ⟨"and", []⟩]⟩]⟩
      fulfilled := [.setVisible true (.ofField "register")]
      rejected := [.setVisible false (.ofField "register")] }
    (∀ r ∈ [rule], ∃ e, r.condition.compile .default = .ok e) ∧
      ∃ ev, Evaluator.ofRules .default [rule] = .ok ev ∧ ∃ outcomes,
        ev.evaluate (Table.ofList [("kind", "person"), ("country", "DE")]) = .ok outcomes ∧
        outcomes.map Outcome.verdict = [⟨0, true, [.setVisible true (.ofField "register")]⟩] := by
  intro rule
  have h : ∀ r ∈ [rule], ∃ e, r.condition.compile .default = .ok e :=
    List.forall_mem_singleton.mpr ⟨_, rfl⟩
  obtain ⟨ev, hev, heval⟩ := evaluate_gives_meaning h
  obtain ⟨outcomes, ho, hv⟩ := heval (Table.ofList [("kind", "person"), ("country", "DE")])
  exact ⟨h, ev, hev, outcomes, ho, hv⟩

end FormRules
