-- SUMMARY: What an edit does, and which maps it applies.
import FormRules.Proofs.Evaluator.Verdict
import FormRules.Proofs.Form.Reachable

/-!
# One edit

An edit stores its value and applies its maps: those of the choice that is made and then, in their
order, those of the rules that it touches. Which maps these are is said by `Form.EditMaps`, without a
search through choices and without the run of an evaluator. An edit has such maps exactly if it does
not fail (`Form.mapsAfter_eq_ok_iff`).
-/

namespace FormRules

/-! ## Choices and rules -/

/-- The first choice of a field that has a value. -/
def Field.Picks (field : Field) (value : String) (choice : Choice) : Prop :=
  ∃ before after, field.choiceList = before ++ choice :: after
    ∧ choice.actualValue = some value ∧ ∀ c ∈ before, c.actualValue ≠ some value

theorem Field.choice?_eq_some_iff {field : Field} {value : String} {choice : Choice} :
    field.choice? value = some choice ↔ field.Picks value choice := by
  unfold Field.choice? Field.Picks
  rw [List.find?_eq_some_iff_append]
  constructor
  · rintro ⟨hvalue, before, after, hlist, hbefore⟩
    exact ⟨before, after, hlist, by simpa using hvalue, by simpa using hbefore⟩
  · rintro ⟨before, after, hlist, hvalue, hbefore⟩
    exact ⟨by simpa using hvalue, before, after, hlist, by simpa using hbefore⟩

namespace Layout

/-- The choice that is made when a name gets a value: the last field that declares the name picks
it. -/
def Chooses (l : Layout) (apiName value : String) (choice : Choice) : Prop :=
  ∃ held field, l.LastDeclares apiName held field ∧ field.Picks value choice

/-- The maps that come with a value of a name: those of the choice that is made, if one is. -/
inductive ChoiceMaps (l : Layout) (apiName value : String) : List FieldMap → Prop where
  | made {choice : Choice} : l.Chooses apiName value choice →
    ChoiceMaps l apiName value (choice.maps.getD [])
  | none : (∀ choice, ¬ l.Chooses apiName value choice) → ChoiceMaps l apiName value []

theorem chooses_iff {l : Layout} {apiName value : String} {choice : Choice} :
    l.Chooses apiName value choice
      ↔ (l.field? apiName).bind (·.choice? value) = some choice := by
  simp only [Chooses, Option.bind_eq_some_iff, field?_eq_some_iff, Field.choice?_eq_some_iff]
  constructor
  · rintro ⟨held, field, hlast, hpicks⟩
    exact ⟨field, ⟨held, hlast⟩, hpicks⟩
  · rintro ⟨field, ⟨held, hlast⟩, hpicks⟩
    exact ⟨held, field, hlast, hpicks⟩

end Layout

/-- The maps that a rule imposes for some values: those of its effects on the side on which its
condition comes out. -/
inductive CompiledRule.Imposes (values : FormValues) (r : CompiledRule) : List FieldMap → Prop where
  | fulfilled {t : Trace} : r.condition.evaluate values = .ok t → t.outcome = .bool true →
    Imposes values r (effectMaps r.fulfilled)
  | rejected {t : Trace} : r.condition.evaluate values = .ok t → t.outcome = .bool false →
    Imposes values r (effectMaps r.rejected)

namespace Form

variable {f : Form} {apiName value : String} {values : FormValues} {maps : List FieldMap}

/-- The maps of an edit, for the values after it: those that come with the value, then those of the
rules that the edit touches, in their order. -/
def EditMaps (f : Form) (values : FormValues) (apiName value : String) (maps : List FieldMap) :
    Prop :=
  ∃ own imposed, f.layout.ChoiceMaps apiName value own
    ∧ List.Forall₂ (CompiledRule.Imposes values)
      (f.evaluator.rules.filter (·.condition.isTouchedBy [apiName])) imposed
    ∧ maps = own ++ imposed.flatten

theorem choiceMaps_eq_iff : f.choiceMaps apiName value = maps
    ↔ f.layout.ChoiceMaps apiName value maps := by
  unfold choiceMaps
  cases hchoice : (f.layout.field? apiName).bind (·.choice? value) with
  | some choice =>
    have hchooses := Layout.chooses_iff.mpr hchoice
    constructor
    · rintro rfl
      exact .made hchooses
    · rintro (@⟨other, hother⟩ | hnone)
      · obtain rfl := Option.some.inj (hchoice.symm.trans (Layout.chooses_iff.mp hother))
        rfl
      · exact absurd hchooses (hnone choice)
  | none =>
    have hnone : ∀ choice, ¬ f.layout.Chooses apiName value choice := by
      simp [Layout.chooses_iff, hchoice]
    constructor
    · rintro rfl
      exact .none hnone
    · rintro (@⟨choice, hchooses⟩ | _)
      · exact absurd hchooses (hnone choice)
      · rfl

end Form

theorem CompiledRule.imposes_iff {values : FormValues} {r : CompiledRule} {maps : List FieldMap} :
    r.Imposes values maps ↔ ∃ o, r.evaluate values = .ok o ∧ effectMaps o.effects = maps := by
  constructor
  · rintro (@⟨t, ht, houtcome⟩ | @⟨t, ht, houtcome⟩)
    · exact ⟨_, CompiledRule.evaluate_eq_ok_iff.mpr ⟨t, true, ht, houtcome, rfl⟩, rfl⟩
    · exact ⟨_, CompiledRule.evaluate_eq_ok_iff.mpr ⟨t, false, ht, houtcome, rfl⟩, rfl⟩
  · rintro ⟨o, ho, rfl⟩
    obtain ⟨t, b, ht, hbool, rfl⟩ := CompiledRule.evaluate_eq_ok_iff.mp ho
    cases b with
    | true => exact .fulfilled ht hbool
    | false => exact .rejected ht hbool

/-- Rules are evaluated if each of them imposes some maps, and the maps of the outcomes are these. -/
theorem Evaluator.forall₂_imposes_iff {values : FormValues} {rules : List CompiledRule}
    {imposed : List (List FieldMap)} :
    List.Forall₂ (CompiledRule.Imposes values) rules imposed
      ↔ ∃ outcomes, evaluateAll values rules = .ok outcomes
        ∧ outcomes.map (fun o => effectMaps o.effects) = imposed := by
  simp only [evaluateAll_eq_ok_iff]
  constructor
  · intro h
    induction h with
    | nil => exact ⟨[], .nil, rfl⟩
    | cons hr _ ih =>
      obtain ⟨o, ho, rfl⟩ := CompiledRule.imposes_iff.mp hr
      obtain ⟨outcomes, houtcomes, rfl⟩ := ih
      exact ⟨o :: outcomes, .cons ho houtcomes, rfl⟩
  · intro ⟨outcomes, houtcomes, hmaps⟩
    subst hmaps
    apply List.forall₂_map_right_iff.mpr
    exact houtcomes.imp fun r o ho => CompiledRule.imposes_iff.mpr ⟨o, ho, rfl⟩

namespace Form

variable {f : Form} {apiName value : String} {values : FormValues} {maps : List FieldMap}

theorem mapsAfter_eq_ok_iff :
    f.mapsAfter values apiName value = .ok maps ↔ f.EditMaps values apiName value maps := by
  unfold mapsAfter EditMaps Evaluator.evaluateUpdated
  simp only [map_eq_ok, Evaluator.forall₂_imposes_iff, ← choiceMaps_eq_iff, List.flatMap_def]
  constructor
  · rintro ⟨outcomes, houtcomes, rfl⟩
    exact ⟨_, _, rfl, ⟨outcomes, houtcomes, rfl⟩, rfl⟩
  · rintro ⟨_, _, rfl, ⟨outcomes, houtcomes, rfl⟩, rfl⟩
    exact ⟨outcomes, houtcomes, rfl⟩

/-! ## What an edit does -/

/-- The maps that an edit applies; none if a rule cannot be evaluated. -/
def appliedMaps (f : Form) (values : FormValues) (apiName value : String) : List FieldMap :=
  match f.mapsAfter values apiName value with
  | .ok maps => maps
  | .error _ => []

/-- Why an edit fails, if it does. -/
def failure? (f : Form) (values : FormValues) (apiName value : String) : Option EvaluationError :=
  match f.mapsAfter values apiName value with
  | .ok _ => none
  | .error e => some e

/-- Whether or not it fails, an edit stores its value and applies its maps. -/
theorem set_eq_applied (f : Form) (s : FormState) (apiName value : String) :
    f.set s apiName value
      = (f.applyMaps (s.store apiName value)
            (f.appliedMaps (s.values.insert apiName value) apiName value),
          f.failure? (s.values.insert apiName value) apiName value) := by
  unfold appliedMaps failure?
  obtain ⟨e, hmaps, hset⟩ | ⟨maps, hmaps, hset⟩ := f.set_cases s apiName value
  · simp [hset, hmaps]
  · simp [hset, hmaps]

end Form

end FormRules
