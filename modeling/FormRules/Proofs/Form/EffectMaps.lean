-- SUMMARY: Which maps effects amount to, effect by effect.
import FormRules.Form.Effects
import Mathlib.Data.List.Induction

/-!
# Maps of effects

The maps of a list of effects are built up from the left, and each effect adds a map, adds a value to
the last map, or is left out. `addEffect_cases` and `allowLast_cases` say which of these happens;
what holds of all maps of effects follows by `effectMaps_induction`.
-/

namespace FormRules

namespace FieldMap

variable {m extended : FieldMap} {field value : String}

/-- A map gets one more value exactly if it lists values of the field already. -/
theorem extend?_eq_some_iff :
    m.extend? field value = some extended ↔
      ∃ cs, m.choices = some cs ∧ m.apiName = some field
        ∧ extended = { m with choices := some (cs ++ [{ actualValue := some value }]) } := by
  unfold extend?
  cases hc : m.choices with
  | none => simp
  | some cs =>
    by_cases hn : m.apiName = some field
    · simp [hn, eq_comm]
    · simp [hn]

theorem extend?_eq_none_iff :
    m.extend? field value = none ↔ (m.apiName = some field → m.choices = none) := by
  unfold extend?
  cases hc : m.choices with
  | none => simp
  | some cs => simp

end FieldMap

/-! ## One value more -/

@[simp] theorem allowLast_nil (field value : String) :
    allowLast field value [] = [.allowing field value] := rfl

/-- Only the last map matters. -/
theorem allowLast_concat (field value : String) (maps : List FieldMap) (m : FieldMap) :
    allowLast field value (maps ++ [m]) = maps ++ allowLast field value [m] := by
  induction maps with
  | nil => rfl
  | cons first rest ih =>
    cases rest with
    | nil => rfl
    | cons second rest => exact congrArg (first :: ·) ih

/-- The last map lists one more value of a field if it lists values of that field; otherwise there
is a new map for it. -/
theorem allowLast_cases (field value : String) (maps : List FieldMap) :
    (∃ before m extended, maps = before ++ [m] ∧ m.extend? field value = some extended
      ∧ allowLast field value maps = before ++ [extended])
    ∨ (∀ before m, maps = before ++ [m] → m.extend? field value = none)
      ∧ allowLast field value maps = maps ++ [.allowing field value] := by
  rcases List.eq_nil_or_concat maps with rfl | ⟨before, m, rfl⟩
  · exact .inr ⟨by simp, rfl⟩
  · rw [List.concat_eq_append, allowLast_concat]
    cases hm : m.extend? field value with
    | some extended => exact .inl ⟨before, m, extended, rfl, hm, by simp [allowLast, hm]⟩
    | none =>
      refine .inr ⟨fun _ last hsplit => ?_, by simp [allowLast, hm]⟩
      obtain ⟨-, rfl⟩ : before = _ ∧ m = last := by simpa using hsplit
      exact hm

/-! ## One effect more -/

/-- What an effect does to the maps before it: it adds a map that shows or hides its target, it lets
its field offer one more value, or it does nothing. -/
theorem addEffect_cases (maps : List FieldMap) (effect : Call) :
    (∃ visible m, effect.visibilityMap? visible = some m ∧ addEffect maps effect = maps ++ [m])
    ∨ (∃ field value, effect.allowed? = some (field, value)
      ∧ addEffect maps effect = allowLast field value maps)
    ∨ addEffect maps effect = maps := by
  unfold addEffect
  split
  · cases hm : effect.visibilityMap? (effect.func = "show") with
    | some m => exact .inl ⟨_, m, hm, rfl⟩
    | none => exact .inr (.inr (by simp))
  · split
    · cases ha : effect.allowed? with
      | some allowed => exact .inr (.inl ⟨allowed.1, allowed.2, rfl, rfl⟩)
      | none => exact .inr (.inr rfl)
    · exact .inr (.inr rfl)

theorem effectMaps_append (effects more : List Call) :
    effectMaps (effects ++ more) = more.foldl addEffect (effectMaps effects) :=
  List.foldl_append

theorem effectMaps_concat (effects : List Call) (effect : Call) :
    effectMaps (effects ++ [effect]) = addEffect (effectMaps effects) effect :=
  effectMaps_append effects [effect]

/-- What holds of every map that one effect makes, and of a map that gets one more value if it holds
of the map before, holds of all maps of some effects. -/
theorem effectMaps_induction {P : FieldMap → Prop} {effects : List Call}
    (hvisible : ∀ effect ∈ effects, ∀ visible m, effect.visibilityMap? visible = some m → P m)
    (hallowed : ∀ effect ∈ effects, ∀ field value, effect.allowed? = some (field, value) →
      P (.allowing field value))
    (hextend : ∀ m field value extended, P m → m.extend? field value = some extended → P extended) :
    ∀ m ∈ effectMaps effects, P m := by
  induction effects using List.reverseRecOn with
  | nil => simp [effectMaps]
  | append_singleton effects effect ih =>
    have hmaps := ih (fun e he => hvisible e (List.mem_append_left _ he))
      (fun e he => hallowed e (List.mem_append_left _ he))
    have hlast : effect ∈ effects ++ [effect] := by simp
    rw [effectMaps_concat]
    obtain ⟨visible, m, hm, h⟩ | ⟨field, value, ha, h⟩ | h := addEffect_cases (effectMaps effects) effect
    · rw [h, List.forall_mem_append]
      exact ⟨hmaps, by simpa using hvisible effect hlast visible m hm⟩
    · rw [h]
      obtain ⟨before, m, extended, hsplit, hm, h⟩ | ⟨_, h⟩ :=
        allowLast_cases field value (effectMaps effects)
      · rw [hsplit, List.forall_mem_append] at hmaps
        rw [h, List.forall_mem_append]
        exact ⟨hmaps.1, by simpa using hextend m field value extended (hmaps.2 m (by simp)) hm⟩
      · rw [h, List.forall_mem_append]
        exact ⟨hmaps, by simpa using hallowed effect hlast field value ha⟩
    · rw [h]
      exact hmaps

/-! ## Where the target of a map comes from -/

namespace Call

variable {effect : Call} {m : FieldMap}

/-- The field that an effect is about, if its first argument names one. -/
def fieldKey? (effect : Call) : Option String := effect.operandKey? 0 (·.field)

/-- The section that an effect is about, if its first argument names one. -/
def sectionKey? (effect : Call) : Option String := effect.operandKey? 0 (·.sectionId)

theorem apiName_of_visibilityMap? {visible : Bool} (h : effect.visibilityMap? visible = some m) :
    m.apiName = effect.fieldKey? ∧ (m.apiName = none → m.id = effect.sectionKey?) := by
  unfold visibilityMap? at h
  unfold fieldKey? sectionKey?
  split at h <;> cases h <;> simp [*]

theorem fieldKey?_of_allowed? {field value : String} (h : effect.allowed? = some (field, value)) :
    effect.fieldKey? = some field := by
  unfold allowed? at h
  split at h
  · next hfield _ =>
    obtain ⟨rfl, rfl⟩ : _ = field ∧ _ = value := by simpa using h
    exact hfield
  · cases h

end Call

/-- Every map of some effects has its target from one of them: the field that the effect is about,
and without a field the section. -/
theorem exists_effect_of_mem_effectMaps {effects : List Call} :
    ∀ m ∈ effectMaps effects, ∃ effect ∈ effects,
      m.apiName = effect.fieldKey? ∧ (m.apiName = none → m.id = effect.sectionKey?) := by
  apply effectMaps_induction
  · intro effect hmem visible m hm
    exact ⟨effect, hmem, Call.apiName_of_visibilityMap? hm⟩
  · intro effect hmem field value ha
    exact ⟨effect, hmem, (Call.fieldKey?_of_allowed? ha).symm, by simp [FieldMap.allowing]⟩
  · rintro m field value extended ⟨effect, hmem, htarget⟩ hextended
    obtain ⟨cs, _, _, rfl⟩ := FieldMap.extend?_eq_some_iff.mp hextended
    exact ⟨effect, hmem, htarget⟩

end FormRules
