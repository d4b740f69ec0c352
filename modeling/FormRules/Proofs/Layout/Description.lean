-- SUMMARY: Which layout a draft describes, object by object and to any depth.
import FormRules.Proofs.Pointwise
import FormRules.Layout.Validation

/-!
# What a draft describes

A draft describes a layout if both have the same objects in the same places, with the same
attributes. Choices stand in choices, through the maps that list them, to any depth; at every depth
the maps of a choice are there as soon as the draft mentions them, be they a list or `null`. The
relation knows no path and no error, and does not say how a layout is made of a draft.
-/

namespace FormRules

/-! ## The relation -/

mutual

/-- A choice keeps its texts. Maps that are `null` are the empty list. -/
inductive DraftChoice.Describes : DraftChoice → Choice → Prop where
  | unmapped (actualValue displayValue apiName : Option String) :
    DraftChoice.Describes { actualValue, displayValue, apiName, maps := none }
      { actualValue, displayValue, apiName, maps := none }
  | null (actualValue displayValue apiName : Option String) :
    DraftChoice.Describes { actualValue, displayValue, apiName, maps := some none }
      { actualValue, displayValue, apiName, maps := some [] }
  | mapped (actualValue displayValue apiName : Option String) {ms : List DraftMap}
      {maps : List FieldMap} (h : List.Forall₂ DraftMap.Describes ms maps) :
    DraftChoice.Describes { actualValue, displayValue, apiName, maps := some (some ms) }
      { actualValue, displayValue, apiName, maps := some maps }

/-- A map keeps its attributes, and lists the same choices if it lists any. -/
inductive DraftMap.Describes : DraftMap → FieldMap → Prop where
  | bare (apiName id : Option String) (visible : Option Bool) :
    DraftMap.Describes { apiName, id, visible, choices := none }
      { apiName, id, visible, choices := none }
  | listing (apiName id : Option String) (visible : Option Bool) {cs : List DraftChoice}
      {choices : List Choice} (h : List.Forall₂ DraftChoice.Describes cs choices) :
    DraftMap.Describes { apiName, id, visible, choices := some cs }
      { apiName, id, visible, choices := some choices }

end

/-- A field keeps its attributes. What does not say whether it is required is optional. -/
structure DraftField.Describes (f : DraftField) (g : Field) : Prop where
  id : g.id = f.id
  apiName : g.apiName = f.apiName
  dataType : f.dataType = some g.dataType
  label : g.label = f.label
  jsonType : g.jsonType = f.jsonType
  required : g.required = f.required.getD false
  visible : g.visible = f.visible
  defaultValue : g.defaultValue = f.defaultValue
  choices : Option.Rel (List.Forall₂ DraftChoice.Describes) f.choices g.choices

structure DraftSection.Describes (s : DraftSection) (t : Section) : Prop where
  id : t.id = s.id
  name : t.name = s.name
  visible : t.visible = s.visible
  fields : ∃ fields, s.fields = some fields ∧ List.Forall₂ DraftField.Describes fields t.fields

structure Draft.Describes (d : Draft) (l : Layout) : Prop where
  sections : ∃ sections, d.sections = some sections
    ∧ List.Forall₂ DraftSection.Describes sections l.sections
  rules : l.rules = d.rules.getD []

/-! ## Choices describe what they become -/

mutual

theorem DraftChoice.describes_toChoice : ∀ c : DraftChoice, c.Describes c.toChoice
  | { maps := none, .. } => .unmapped _ _ _
  | { maps := some none, .. } => .null _ _ _
  | { maps := some (some ms), .. } => .mapped _ _ _ (describes_draftMapsToMaps ms)

theorem DraftMap.describes_toFieldMap : ∀ m : DraftMap, m.Describes m.toFieldMap
  | { choices := none, .. } => .bare _ _ _
  | { choices := some cs, .. } => .listing _ _ _ (describes_draftChoicesToChoices cs)

theorem describes_draftMapsToMaps :
    ∀ ms : List DraftMap, List.Forall₂ DraftMap.Describes ms (draftMapsToMaps ms)
  | [] => .nil
  | m :: rest => .cons m.describes_toFieldMap (describes_draftMapsToMaps rest)

theorem describes_draftChoicesToChoices :
    ∀ cs : List DraftChoice, List.Forall₂ DraftChoice.Describes cs (draftChoicesToChoices cs)
  | [] => .nil
  | c :: rest => .cons c.describes_toChoice (describes_draftChoicesToChoices rest)

end

/-! ## Places inside a choice -/

/-- The choice that stands a number of steps deep in a choice. A step goes to a map of the choice
and to a choice that the map lists, by their indices. -/
def DraftChoice.nested? (c : DraftChoice) : List (Nat × Nat) → Option DraftChoice
  | [] => some c
  | (m, d) :: steps => do
    let map ← ((c.maps.getD none).getD [])[m]?
    let dependent ← (map.choices.getD [])[d]?
    dependent.nested? steps

def Choice.nested? (c : Choice) : List (Nat × Nat) → Option Choice
  | [] => some c
  | (m, d) :: steps => do
    let map ← (c.maps.getD [])[m]?
    let dependent ← (map.choices.getD [])[d]?
    dependent.nested? steps

/-- The choice at the `k`-th place of the `j`-th field of the `i`-th section, or some steps deep in
it. -/
def Draft.choice? (d : Draft) (i j k : Nat) (steps : List (Nat × Nat)) : Option DraftChoice := do
  let s ← (d.sections.getD [])[i]?
  let f ← (s.fields.getD [])[j]?
  let c ← (f.choices.getD [])[k]?
  c.nested? steps

def Layout.choice? (l : Layout) (i j k : Nat) (steps : List (Nat × Nat)) : Option Choice := do
  let s ← l.sections[i]?
  let f ← s.fields[j]?
  let c ← f.choiceList[k]?
  c.nested? steps

namespace DraftChoice.Describes

variable {c : DraftChoice} {c' : Choice}

theorem isSome_maps (h : c.Describes c') : c'.maps.isSome = c.maps.isSome := by
  cases h <;> rfl

theorem maps (h : c.Describes c') :
    List.Forall₂ DraftMap.Describes ((c.maps.getD none).getD []) (c'.maps.getD []) := by
  cases h with
  | unmapped => exact .nil
  | null => exact .nil
  | mapped _ _ _ h => exact h

end DraftChoice.Describes

theorem DraftMap.Describes.choices {m : DraftMap} {m' : FieldMap} (h : m.Describes m') :
    List.Forall₂ DraftChoice.Describes (m.choices.getD []) (m'.choices.getD []) := by
  cases h with
  | bare => exact .nil
  | listing _ _ _ h => exact h

/-- What stands some steps deep in a choice describes what stands there in the other. -/
theorem DraftChoice.Describes.nested {c : DraftChoice} {c' : Choice} (h : c.Describes c')
    (steps : List (Nat × Nat)) :
    Option.Rel DraftChoice.Describes (c.nested? steps) (c'.nested? steps) := by
  induction steps generalizing c c' with
  | nil => exact .some h
  | cons step steps ih =>
    obtain ⟨m, d⟩ := step
    apply rel_bind (rel_getElem? h.maps m)
    intro map map' hmap
    apply rel_bind (rel_getElem? hmap.choices d)
    intro dependent dependent' hdependent
    exact ih hdependent

/-- Wherever a choice stands, however deep, the layout has one there exactly if the draft has. -/
theorem Draft.Describes.choice {d : Draft} {l : Layout} (h : d.Describes l) (i j k : Nat)
    (steps : List (Nat × Nat)) :
    Option.Rel DraftChoice.Describes (d.choice? i j k steps) (l.choice? i j k steps) := by
  obtain ⟨sections, hsections, hall⟩ := h.sections
  rw [Draft.choice?, hsections]
  apply rel_bind (rel_getElem? hall i)
  intro s s' hs
  obtain ⟨fields, hfields, hall⟩ := hs.fields
  rw [hfields]
  apply rel_bind (rel_getElem? hall j)
  intro f f' hf
  apply rel_bind (rel_getElem? (forall₂_getD hf.choices) k)
  intro c c' hc
  exact hc.nested steps

end FormRules
