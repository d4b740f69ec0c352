-- SUMMARY: The maps of effects say what the usable effects say, with each run of values in one map.
import FormRules.Proofs.Form.OpenList
import Mathlib.Data.List.Chain

/-!
# Effects grouped into maps

An effect that can be used says one thing: that a target is shown or hidden, or that a field offers
a value. A map of effects says one thing of the first kind, or a run of things of the second kind
that are all about one field. `Grouped` relates statements to the maps that say them in their order,
nothing else, and with no run broken up. One statement more keeps it (`Grouped.add`), and so it
holds of the maps of any effects.
-/

namespace FormRules

/-! ## Usable effects -/

/-- What an effect says about a form. -/
inductive Statement where
  | display (visible : Bool) (target : Target)
  | allow (field value : String)
  deriving DecidableEq, Repr

/-- What an operand names: a field, otherwise a section. -/
def Operand.target? (o : Operand) : Option Target :=
  match o.field, o.sectionId with
  | some apiName, _ => some (.field apiName)
  | none, some id => some (.area id)
  | none, none => none

namespace Call

/-- What the first argument of an effect names, if it is an operand. -/
def target? (effect : Call) : Option Target :=
  match effect.args with
  | .operand o :: _ => o.target?
  | _ => none

/-- The field of the first argument and the value of the second, if both are operands. -/
def offer? (effect : Call) : Option (String × String) :=
  match effect.args with
  | .operand ⟨_, some field, _⟩ :: .operand ⟨_, _, some value⟩ :: _ => some (field, value)
  | _ => none

/-- What an effect says, if it can be used. Further arguments make no difference. -/
def statement? (effect : Call) : Option Statement :=
  if effect.func = "show" then effect.target?.map (.display true)
  else if effect.func = "hide" then effect.target?.map (.display false)
  else if effect.func = "allow" then effect.offer?.map fun (field, value) => .allow field value
  else none

end Call

/-! ## What maps say -/

namespace FieldMap

/-- The map that shows or hides a target and does nothing else. -/
def displaying (visible : Bool) : Target → FieldMap
  | .field apiName => { apiName := some apiName, visible := some visible }
  | .area id => { id := some id, visible := some visible }

/-- The map that lists values of a field and does nothing else. -/
def listing (field : String) (values : List String) : FieldMap :=
  { apiName := some field, choices := some (values.map fun value => { actualValue := some value }) }

/-- A map shows or hides a target and does nothing else. -/
def IsDisplay (m : FieldMap) : Prop := ∃ visible target, m = .displaying visible target

/-- A map lists values of a field, at least one, and does nothing else. -/
def IsListing (m : FieldMap) (field : String) : Prop :=
  ∃ values, values ≠ [] ∧ m = .listing field values

/-- What a map says: whether its target is shown, then each value that it lists. -/
def statements (m : FieldMap) : List Statement :=
  let target := (m.apiName.map Target.field).or (m.id.map Target.area)
  let displays := m.visible.bind fun visible => target.map (.display visible)
  let allows := m.apiName.map fun field => m.values.map (.allow field)
  displays.toList ++ allows.getD []

@[simp] theorem statements_displaying (visible : Bool) (target : Target) :
    (displaying visible target).statements = [.display visible target] := by
  cases target <;> rfl

@[simp] theorem values_listing (field : String) (values : List String) :
    (listing field values).values = values := by
  simp [listing, FieldMap.values, dependents, List.filterMap_map]

@[simp] theorem statements_listing (field : String) (values : List String) :
    (listing field values).statements = values.map (.allow field) := by
  rw [statements, values_listing]
  simp [listing]

theorem IsListing.apiName {m : FieldMap} {field : String} (h : m.IsListing field) :
    m.apiName = some field := by
  obtain ⟨values, _, rfl⟩ := h
  rfl

end FieldMap

/-! ## One statement after the other -/

/-- Add a statement to the maps of the statements before it. -/
def addStatement (maps : List FieldMap) : Statement → List FieldMap
  | .display visible target => maps ++ [.displaying visible target]
  | .allow field value => allowLast field value maps

theorem Call.visibilityMap?_eq (effect : Call) (visible : Bool) :
    effect.visibilityMap? visible = effect.target?.map (.displaying visible) := by
  obtain ⟨func, args⟩ := effect
  match args with
  | [] => rfl
  | .call _ :: _ => rfl
  | .operand ⟨sectionId, field, value⟩ :: _ => cases field <;> cases sectionId <;> rfl

theorem Call.allowed?_eq (effect : Call) : effect.allowed? = effect.offer? := by
  obtain ⟨func, args⟩ := effect
  match args with
  | [] => rfl
  | [.call _] => rfl
  | [.operand ⟨_, field, _⟩] => cases field <;> rfl
  | .call _ :: _ :: _ => rfl
  | .operand ⟨_, field, _⟩ :: .call _ :: _ => cases field <;> rfl
  | .operand ⟨_, field, _⟩ :: .operand ⟨_, _, value⟩ :: _ => cases field <;> cases value <;> rfl

/-- An effect adds what it says. -/
theorem addEffect_eq (maps : List FieldMap) (effect : Call) :
    addEffect maps effect = (effect.statement?.map (addStatement maps)).getD maps := by
  unfold addEffect Call.statement?
  rw [effect.visibilityMap?_eq, effect.allowed?_eq]
  by_cases hshow : effect.func = "show"
  · cases effect.target? <;> simp [hshow, addStatement]
  by_cases hhide : effect.func = "hide"
  · cases effect.target? <;> simp [hhide, addStatement]
  by_cases hallow : effect.func = "allow"
  · cases effect.offer? <;> simp [hallow, addStatement]
  · simp [hshow, hhide, hallow]

/-- Only what effects say counts. -/
theorem effectMaps_eq (effects : List Call) :
    effectMaps effects = (effects.filterMap Call.statement?).foldl addStatement [] := by
  rw [List.foldl_filterMap, effectMaps]
  congr 1
  funext maps effect
  rw [addEffect_eq]
  cases effect.statement? <;> rfl

/-! ## Groups -/

/-- Maps say some statements in their order and nothing else. Each of them shows or hides a target
or lists values, and neighbours do not list values of one field. -/
structure Grouped (statements : List Statement) (maps : List FieldMap) : Prop where
  shape : ∀ m ∈ maps, m.IsDisplay ∨ ∃ field, m.IsListing field
  unfolded : maps.flatMap FieldMap.statements = statements
  apart : maps.IsChain fun m next => ∀ field, m.IsListing field → ¬ next.IsListing field

namespace Grouped

variable {statements : List Statement} {maps : List FieldMap}

theorem empty : Grouped [] [] where
  shape := by simp
  unfolded := rfl
  apart := .nil

/-- One map more is the last of a group if it does not go on with the list that the map before it
is. -/
theorem concat_iff {m : FieldMap} :
    Grouped statements (maps ++ [m]) ↔ ∃ earlier, Grouped earlier maps
      ∧ statements = earlier ++ m.statements ∧ (m.IsDisplay ∨ ∃ field, m.IsListing field)
      ∧ ∀ last ∈ maps.getLast?, ∀ field, last.IsListing field → ¬ m.IsListing field := by
  constructor
  · intro h
    obtain ⟨hshape, hm⟩ := List.forall_mem_append.mp h.shape
    obtain ⟨hapart, -, hlast⟩ := List.isChain_append.mp h.apart
    exact ⟨_, ⟨hshape, rfl, hapart⟩, by simp [← h.unfolded], hm m (by simp), by simpa using hlast⟩
  · rintro ⟨earlier, h, rfl, hm, hlast⟩
    exact {
      shape := List.forall_mem_append.mpr ⟨h.shape, by simpa using hm⟩
      unfolded := by simp [h.unfolded]
      apart := List.isChain_append.mpr ⟨h.apart, .singleton m, by simpa using hlast⟩ }

theorem display (h : Grouped statements maps) (visible : Bool) (target : Target) :
    Grouped (statements ++ [.display visible target]) (maps ++ [.displaying visible target]) := by
  refine concat_iff.mpr ⟨statements, h, by simp, .inl ⟨visible, target, rfl⟩, ?_⟩
  intro _ _ field _ hm
  obtain ⟨values, _, heq⟩ := hm
  cases target <;> simp [FieldMap.displaying, FieldMap.listing] at heq

/-- A list that is the last map gets one more value, otherwise a new list begins. -/
theorem allow (h : Grouped statements maps) (field value : String) :
    Grouped (statements ++ [.allow field value]) (allowLast field value maps) := by
  obtain ⟨before, m, extended, rfl, hm, heq⟩ | ⟨hclosed, heq⟩ := allowLast_cases field value maps
  · obtain ⟨cs, hcs, hname, rfl⟩ := FieldMap.extend?_eq_some_iff.mp hm
    obtain ⟨earlier, hearlier, rfl, hshape, hlast⟩ := concat_iff.mp h
    obtain ⟨values, hvalues, rfl⟩ : m.IsListing field := by
      obtain ⟨visible, target, rfl⟩ | ⟨other, hother⟩ := hshape
      · cases target <;> cases hcs
      · cases hname.symm.trans hother.apiName
        exact hother
    have hextended : { FieldMap.listing field values with
        choices := some (cs ++ [{ actualValue := some value }]) }
        = FieldMap.listing field (values ++ [value]) := by
      cases hcs
      simp [FieldMap.listing]
    rw [heq, hextended]
    refine concat_iff.mpr ⟨earlier, hearlier, by simp, .inr ⟨field, _, by simp, rfl⟩, ?_⟩
    intro last hmem other hother hmore
    cases hmore.apiName
    exact hlast last hmem field hother ⟨values, hvalues, rfl⟩
  · rw [heq]
    refine concat_iff.mpr ⟨statements, h, rfl, .inr ⟨field, [value], by simp, rfl⟩, ?_⟩
    intro last hmem other hother hnew
    cases hnew.apiName
    obtain ⟨before, rfl⟩ := List.getLast?_eq_some_iff.mp hmem
    obtain ⟨values, -, rfl⟩ := hother
    have hnone := FieldMap.extend?_eq_none_iff.mp (hclosed before _ rfl)
    cases hnone rfl

theorem add (h : Grouped statements maps) (statement : Statement) :
    Grouped (statements ++ [statement]) (addStatement maps statement) := by
  cases statement with
  | display visible target => exact h.display visible target
  | allow field value => exact h.allow field value

/-- Statements that are added one by one stay grouped. -/
theorem foldl_addStatement (statements : List Statement) :
    Grouped statements (statements.foldl addStatement []) := by
  induction statements using List.reverseRecOn with
  | nil => exact empty
  | append_singleton statements statement ih =>
    rw [List.foldl_append]
    exact ih.add statement

end Grouped

/-- The maps of any effects say what the usable effects say, in their order and nothing else: each
of them shows or hides a target, or lists values of a field, and neighbouring lists are about
different fields. Effects that cannot be used make no difference. -/
theorem effects_are_grouped (effects : List Call) :
    Grouped (effects.filterMap Call.statement?) (effectMaps effects)
    ∧ effectMaps (effects.filter (·.statement?.isSome)) = effectMaps effects := by
  have hskipped : (effects.filter (·.statement?.isSome)).filterMap Call.statement?
      = effects.filterMap Call.statement? := by
    rw [List.filterMap_filter]
    congr 1
    funext effect
    cases effect.statement? <;> rfl
  rw [effectMaps_eq, effectMaps_eq, hskipped]
  exact ⟨.foldl_addStatement _, rfl⟩

/-- An effect that cannot be used does not break up a list. -/
example : effectMaps [.allow "city" "Berlin", ⟨"flash", []⟩, .allow "city" "Hamburg"]
    = [.listing "city" ["Berlin", "Hamburg"]] := rfl

end FormRules
