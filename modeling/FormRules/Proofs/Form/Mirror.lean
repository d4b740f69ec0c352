-- SUMMARY: A section that one rule governs is shown exactly while the condition of the rule holds.
import FormRules.Form.View
import FormRules.Proofs.Condition.Dependence
import FormRules.Proofs.Form.Reachable

/-!
# Sections that mirror a rule

A rule governs a section when it shows the section if it is fulfilled, hides it otherwise, and
nothing else in the form reaches the section (`Form.Governs`). If the condition joins equalities by
`or`, an edit of a field that it reads evaluates the rule anew, and an edit of another field leaves
both the condition and the section as they are. So the section follows the condition from the first
edit of a field that the rule reads (`Form.Mirrors`).
-/

namespace FormRules

/-- Showing or hiding a section amounts to one map on it. -/
theorem effectMaps_setVisible_ofSection (visible : Bool) (id : String) :
    effectMaps [.setVisible visible (.ofSection id)]
      = [{ id := some id, visible := some visible }] := by
  cases visible <;> rfl

namespace Form

variable {f : Form} {r : CompiledRule} {id : String} {s : FormState}

theorem target?_ofSection (hid : (f.layout.section? id).isSome) (visible : Option Bool) :
    f.target? { id := some id, visible := visible } = some (.area id) := by
  simp [target?, hid]

/-- Some effects amount to maps one of which has a given target. -/
def EffectsReach (f : Form) (effects : List Call) (target : Target) : Prop :=
  ∃ m ∈ effectMaps effects, f.target? m = some target

/-! ## Governed sections -/

/-- A rule shows a section if it is fulfilled and hides it otherwise, and nothing else reaches the
section: no effect of another rule and no map of a choice. -/
structure Governs (f : Form) (r : CompiledRule) (id : String) : Prop where
  known : (f.layout.section? id).isSome
  shows : r.fulfilled = [.setVisible true (.ofSection id)]
  hides : r.rejected = [.setVisible false (.ofSection id)]
  alone : ∃ before after, f.evaluator.rules = before ++ r :: after
    ∧ ∀ other ∈ before ++ after, ¬ f.EffectsReach other.fulfilled (.area id)
      ∧ ¬ f.EffectsReach other.rejected (.area id)
  unmapped : ∀ field ∈ f.layout.fields, ∀ choice ∈ field.choiceList,
    ∀ m ∈ choice.maps.getD [], f.target? m ≠ some (.area id)

theorem Governs.effectMaps_verdict (h : f.Governs r id) (values : FormValues) :
    effectMaps (r.verdict values).effects
      = [{ id := some id, visible := some (r.condition.holds values) }] := by
  rw [← effectMaps_setVisible_ofSection]
  cases hholds : r.condition.holds values with
  | true => simp [CompiledRule.verdict, Verdict.ofTruth, hholds, h.shows]
  | false => simp [CompiledRule.verdict, Verdict.ofTruth, hholds, h.hides]

theorem Governs.choiceMaps_ne (h : f.Governs r id) (apiName value : String) :
    ∀ m ∈ f.choiceMaps apiName value, f.target? m ≠ some (.area id) := by
  intro m hm
  obtain ⟨field, hfield, choice, hchoice, hmap⟩ := exists_choice_of_mem_choiceMaps hm
  exact h.unmapped field hfield choice hchoice m hmap

/-- The verdict on a rule whose effects do not reach a target has no map on it. -/
theorem effectMaps_verdict_ne {other : CompiledRule} {target : Target}
    (h : ¬ f.EffectsReach other.fulfilled target ∧ ¬ f.EffectsReach other.rejected target)
    (values : FormValues) :
    ∀ m ∈ effectMaps (other.verdict values).effects, f.target? m ≠ some target := by
  intro m hm ht
  unfold CompiledRule.verdict Verdict.ofTruth at hm
  split at hm
  · exact h.1 ⟨m, hm, ht⟩
  · exact h.2 ⟨m, hm, ht⟩

/-! ## One edit -/

section

variable (hwell : f.evaluator.WellTyped) (halt : r.condition.IsAlternatives)
  (h : f.Governs r id) (s : FormState) {apiName : String} (value : String)
include hwell halt h

/-- An edit of a field that the rule reads shows or hides the section by the new values. -/
theorem Governs.visible?_set (hread : apiName ∈ r.condition.fields) :
    (f.set s apiName value).1.visible? (.area id)
      = some (r.condition.holds (s.values.insert apiName value)) := by
  obtain ⟨before, after, hrules, hothers⟩ := h.alone
  have htouched : r.condition.isTouchedBy [apiName] = true :=
    (halt.isTouchedBy_iff [apiName]).mpr ⟨apiName, hread, by simp⟩
  have hkept : (r :: after).filter (·.condition.isTouchedBy [apiName])
      = r :: after.filter (·.condition.isTouchedBy [apiName]) :=
    List.filter_cons_of_pos htouched
  rw [set_eq hwell, followingMaps, hrules, List.filter_append, hkept, List.flatMap_append,
    List.flatMap_cons, h.effectMaps_verdict, ← List.append_assoc]
  refine visible?_applyMaps_of_last (target?_ofSection h.known _) rfl ?_ _
  -- what follows the map of the rule comes from the rules after it
  intro m hm
  obtain ⟨other, hother, hmem⟩ := List.mem_flatMap.mp hm
  have hafter : other ∈ before ++ after := List.mem_append_right _ (List.mem_filter.mp hother).1
  exact effectMaps_verdict_ne (hothers other hafter) _ m hmem

/-- An edit of another field leaves the section alone. -/
theorem Governs.visible?_set_of_not_mem (hnot : apiName ∉ r.condition.fields) :
    (f.set s apiName value).1.visible? (.area id) = s.visible? (.area id) := by
  obtain ⟨before, after, hrules, hothers⟩ := h.alone
  rw [set_eq hwell]
  refine (visible?_applyMaps ?_ _).trans (s.visible?_store apiName value _)
  intro m hm
  rcases List.mem_append.mp hm with hchoice | heffect
  · exact h.choiceMaps_ne apiName value m hchoice
  · obtain ⟨other, hother, hmem⟩ := List.mem_flatMap.mp heffect
    obtain ⟨hin, htouched⟩ := List.mem_filter.mp hother
    rw [hrules, List.mem_append, List.mem_cons] at hin
    obtain hbefore | rfl | hafter := hin
    · exact effectMaps_verdict_ne (hothers other (List.mem_append_left _ hbefore)) _ m hmem
    · obtain ⟨name, hname, hupdated⟩ := (halt.isTouchedBy_iff [apiName]).mp htouched
      exact absurd (List.mem_singleton.mp hupdated ▸ hname) hnot
    · exact effectMaps_verdict_ne (hothers other (List.mem_append_right _ hafter)) _ m hmem

end

/-! ## All edits -/

/-- Once a field that a condition reads has a value, the section is shown or hidden as the condition
says of the values at hand. -/
def Mirrors (condition : Expr) (id : String) (s : FormState) : Prop :=
  ∀ apiName ∈ condition.fields, (s.values.get? apiName).isSome →
    s.visible? (.area id) = some (condition.holds s.values)

theorem Governs.mirrors_set (h : f.Governs r id) (hwell : f.evaluator.WellTyped)
    (halt : r.condition.IsAlternatives) (s : FormState) (apiName value : String)
    (hs : Mirrors r.condition id s) : Mirrors r.condition id (f.set s apiName value).1 := by
  intro read hread hsome
  rw [values_set] at hsome ⊢
  by_cases hedited : apiName ∈ r.condition.fields
  · exact h.visible?_set hwell halt s value hedited
  · have hkept : ∀ name ∈ r.condition.fields,
        (s.values.insert apiName value).get? name = s.values.get? name := by
      intro name hname
      exact s.values.get?_insert_of_ne (ne_of_mem_of_not_mem hname hedited) value
    rw [h.visible?_set_of_not_mem hwell halt s value hedited, Expr.holds_congr hkept]
    exact hs read hread (hkept read hread ▸ hsome)

theorem Reachable.mirrors (hreach : f.Reachable s) (h : f.Governs r id)
    (hwell : f.evaluator.WellTyped) (halt : r.condition.IsAlternatives) :
    Mirrors r.condition id s := by
  refine hreach.induction ?_ (h.mirrors_set hwell halt)
  intro apiName _ hsome
  simp at hsome

/-! ## Rules before they are compiled -/

/-- A rule governs a section in compiled form if it does so as it stands among the rules. -/
theorem exists_governs {before after : List Rule} {rule : Rule}
    (hrules : Evaluator.ofRules .default (before ++ rule :: after) = .ok f.evaluator)
    (hknown : (f.layout.section? id).isSome)
    (hshows : rule.fulfilled = [.setVisible true (.ofSection id)])
    (hhides : rule.rejected = [.setVisible false (.ofSection id)])
    (halone : ∀ other ∈ before ++ after, ¬ f.EffectsReach other.fulfilled (.area id)
      ∧ ¬ f.EffectsReach other.rejected (.area id))
    (hunmapped : ∀ field ∈ f.layout.fields, ∀ choice ∈ field.choiceList,
      ∀ m ∈ choice.maps.getD [], f.target? m ≠ some (.area id)) :
    ∃ r, f.Governs r id ∧ rule.condition.compile .default = .ok r.condition := by
  obtain ⟨compiled, hcompiled, hev⟩ := map_eq_ok.mp hrules
  obtain ⟨first, rest, hfirst, hrest, rfl⟩ := RuleSet.compileFrom_append_eq_ok.mp hcompiled
  obtain ⟨e, second, he, hsecond, rfl⟩ := RuleSet.compileFrom_cons_eq_ok.mp hrest
  refine ⟨_, ⟨hknown, hshows, hhides, ⟨first, second, by rw [← hev], ?_⟩, hunmapped⟩, he⟩
  intro other hother
  -- a compiled rule has the effects of the rule that it comes from
  have hsource : ∃ source ∈ before ++ after, ∃ index, source.compile .default index = .ok other := by
    rcases List.mem_append.mp hother with hmem | hmem
    · obtain ⟨source, hin, hcompile⟩ := RuleSet.exists_source hfirst hmem
      exact ⟨source, List.mem_append_left _ hin, _, hcompile⟩
    · obtain ⟨source, hin, hcompile⟩ := RuleSet.exists_source hsecond hmem
      exact ⟨source, List.mem_append_right _ hin, _, hcompile⟩
  obtain ⟨source, hin, index, hcompile⟩ := hsource
  obtain ⟨condition, _, rfl⟩ := map_eq_ok.mp hcompile
  exact halone source hin

end Form

/-- Let the default registry compile the rules of a form. Let one of them join equalities by `or`,
show a section of the layout if it is fulfilled and hide it otherwise, and let no effect of another
rule and no map of a choice reach that section. Then the form starts and takes every edit of a run,
and as soon as a field that the condition reads has been set, at the start or by an edit, the section
is shown if and only if the condition holds for the values at hand. -/
theorem governed_section_mirrors_condition {f : Form} {before after : List Rule} {rule : Rule}
    (hrules : Evaluator.ofRules .default (before ++ rule :: after) = .ok f.evaluator)
    (hnames : ∀ name ∈ rule.condition.names, name = "is" ∨ name = "or") {id : String}
    (hknown : (f.layout.section? id).isSome)
    (hshows : rule.fulfilled = [.setVisible true (.ofSection id)])
    (hhides : rule.rejected = [.setVisible false (.ofSection id)])
    (halone : ∀ other ∈ before ++ after, ¬ f.EffectsReach other.fulfilled (.area id)
      ∧ ¬ f.EffectsReach other.rejected (.area id))
    (hunmapped : ∀ field ∈ f.layout.fields, ∀ choice ∈ field.choiceList,
      ∀ m ∈ choice.maps.getD [], f.target? m ≠ some (.area id)) (provided : FormValues) :
    ∃ e s, rule.condition.compile .default = .ok e ∧ f.start provided = .ok s ∧
      ∀ edits, (f.run s edits).2 = [] ∧
        ((∃ apiName ∈ e.requiredFields,
            (s.values.get? apiName).isSome ∨ apiName ∈ edits.map (·.1)) →
          f.isSectionVisible (f.run s edits).1 id
            = rule.condition.holds Builtin.ofName? (f.run s edits).1.values) := by
  obtain ⟨r, hgoverns, hcompile⟩ :=
    Form.exists_governs hrules hknown hshows hhides halone hunmapped
  have hwell : f.evaluator.WellTyped :=
    Evaluator.wellTyped_of_ofRules Registry.default_speaks hrules
  obtain ⟨s, hstart⟩ := Form.start_succeeds hwell provided
  refine ⟨r.condition, s, hcompile, hstart, fun edits => ⟨Form.run_succeeds hwell s edits, ?_⟩⟩
  rintro ⟨apiName, hread, hset⟩
  have hmirrors : Form.Mirrors r.condition id (f.run s edits).1 :=
    ((Form.Reachable.start hstart).run edits).mirrors hgoverns hwell
      (Call.isAlternatives_of_compile hcompile hnames)
  have hvalue : ((f.run s edits).1.values.get? apiName).isSome := by
    rw [Form.values_run, Table.isSome_get?_insertAll]
    exact hset.symm
  rw [Form.isSectionVisible, hmirrors apiName (Expr.mem_requiredFields.mp hread) hvalue,
    Option.some_or, Option.getD_some, Call.holds_of_compile Registry.default_speaks hcompile]

/-- The section of the delivery follows a nested disjunction, next to a rule and a map that reach
other targets. -/
theorem governed_section_mirrors_condition_of_delivery :
    let delivery : Rule := {
      condition := ⟨"or", [.call (.is "kind" "company"),
        .call ⟨"or", [.call (.is "country" "DE"), .call (.is "country" "AT")]⟩]⟩
      fulfilled := [.setVisible true (.ofSection "delivery")]
      rejected := [.setVisible false (.ofSection "delivery")] }
    let general : Rule := {
      condition := .is "kind" "person"
      fulfilled := [.setVisible false (.ofSection "general"), .allow "country" "DE"] }
    let person : Choice := { actualValue := some "person"
                             maps := some [{ id := some "general", visible := some true }] }
    let kind : Field := {
      apiName := some "kind", dataType := "pick_list", choices := some [person] }
    let country : Field := { apiName := some "country", dataType := "text" }
    let layout : Layout := {
      sections := [{ id := some "general", fields := [kind] },
        { id := some "delivery", visible := some false, fields := [country] }] }
    ∃ ev s, Evaluator.ofRules .default [general, delivery] = .ok ev
      ∧ Form.start ⟨layout, ev⟩ {} = .ok s
      ∧ Form.isSectionVisible ⟨layout, ev⟩
        (Form.run ⟨layout, ev⟩ s [("kind", "person"), ("country", "AT")]).1 "delivery" = true
      ∧ Form.isSectionVisible ⟨layout, ev⟩
        (Form.run ⟨layout, ev⟩ s [("country", "AT"), ("kind", "person"), ("country", "")]).1
        "delivery" = false := by
  intro delivery general person kind country layout
  obtain ⟨ev, hev⟩ : ∃ ev, Evaluator.ofRules .default ([general] ++ delivery :: []) = .ok ev :=
    ⟨_, rfl⟩
  let condition : Expr := .or (.equal (.field "kind") (.literal (.text "company")))
    (.or (.equal (.field "country") (.literal (.text "DE")))
      (.equal (.field "country") (.literal (.text "AT"))))
  have hcompile : delivery.condition.compile .default = .ok condition := rfl
  have heffects : effectMaps general.fulfilled
      = [{ id := some "general", visible := some false }, .allowing "country" "DE"] := rfl
  have halone : ∀ other ∈ [general] ++ [],
      ¬ Form.EffectsReach ⟨layout, ev⟩ other.fulfilled (.area "delivery")
        ∧ ¬ Form.EffectsReach ⟨layout, ev⟩ other.rejected (.area "delivery") := by
    refine List.forall_mem_singleton.mpr ⟨?_, ?_⟩
    · rw [Form.EffectsReach, heffects]
      simp [Form.target?, FieldMap.allowing, Layout.section?, layout]
    · simp [Form.EffectsReach, general, effectMaps]
  have hunmapped : ∀ field ∈ layout.fields, ∀ choice ∈ field.choiceList,
      ∀ m ∈ choice.maps.getD [], Form.target? ⟨layout, ev⟩ m ≠ some (.area "delivery") := by
    simp [layout, kind, country, person, Layout.fields, Field.choiceList, Form.target?,
      Layout.section?]
  obtain ⟨e, s, he, hstart, hrun⟩ := governed_section_mirrors_condition (f := ⟨layout, ev⟩) hev
    (by decide) rfl rfl rfl halone hunmapped {}
  obtain rfl : condition = e := Except.ok.inj (hcompile.symm.trans he)
  have hread : "country" ∈ condition.requiredFields := Expr.mem_requiredFields.mpr (by decide)
  have hshown : ∀ edits, "country" ∈ edits.map (·.1) →
      Form.isSectionVisible ⟨layout, ev⟩ (Form.run ⟨layout, ev⟩ s edits).1 "delivery"
        = condition.holds (s.values.insertAll edits) := by
    intro edits hset
    rw [(hrun edits).2 ⟨"country", hread, .inr hset⟩, Form.values_run,
      Call.holds_of_compile Registry.default_speaks hcompile]
  refine ⟨ev, s, hev, hstart, ?_, ?_⟩
  · rw [hshown _ (by decide)]
    simp [condition, Expr.value, FormValues.valueOf, Table.get?_insert]
  · rw [hshown _ (by decide)]
    simp [condition, Expr.value, FormValues.valueOf, Table.get?_insert]

end FormRules
