-- SUMMARY: What extraction asks of a layout, in reading order, and the rules that it yields.
import FormRules.Extraction
import FormRules.Proofs.Demand

/-!
# Reading a layout for its rules

Extraction reads the accepted fields of a layout in document order. `Extractor.demands` lists the
keys that it asks for, `Extractor.Yields` describes the rule of a choice with maps. Both are said
for positions in the layout and know nothing of errors; `Extractor.reads_extract` is that extraction
asks for just these keys and yields just these rules.
-/

namespace FormRules

/-! ## Places -/

namespace Path

/-- The place of a choice, given by the position of its field and its position there. -/
def choice (i j k : Nat) : Path := ((field i j).key "pick_list_values").index k

/-- The place of a map of a choice. -/
def map (i j k m : Nat) : Path := ((choice i j k).key "maps").index m

/-- The place of a choice that a map of a choice lists. -/
def dependent (i j k m d : Nat) : Path := ((map i j k m).key "pick_list_values").index d

end Path

/-- What is collected field by field is collected section by section. -/
theorem Layout.flatMap_indexedFields {α : Type} (l : Layout) (collect : Nat → Nat → Field → List α) :
    (l.indexedFields.flatMap fun (i, j, f) => collect i j f)
      = l.sections.zipIdx.flatMap fun (s, i) => s.fields.zipIdx.flatMap fun (f, j) =>
          collect i j f := by
  simp only [indexedFields, List.flatMap_assoc, List.flatMap_map]

/-! ## Demands -/

namespace FieldMap

/-- A choice that a map lists is asked for its value, and for its field unless the map names one. -/
def dependentDemands (map : FieldMap) (path : Path) (dependent : Choice) : List Demand :=
  [⟨path, "api_name", (dependent.apiName.or map.apiName).isSome⟩,
    ⟨path, "actual_value", dependent.actualValue.isSome⟩]

def demands (i j k m : Nat) (map : FieldMap) : List Demand :=
  map.dependents.zipIdx.flatMap fun (dependent, d) =>
    map.dependentDemands (.dependent i j k m d) dependent

end FieldMap

namespace Extractor

variable (x : Extractor)

/-- Maps are read only if they are to be effects. -/
def mapDemands (i j k : Nat) (maps : List FieldMap) : List Demand :=
  match x.policy with
  | .ignore => []
  | .fulfill => maps.zipIdx.flatMap fun (map, m) => map.demands i j k m

/-- A choice with maps has its field asked for a name, and is itself asked for its value. -/
def choiceDemands (i j : Nat) (f : Field) (k : Nat) (choice : Choice) : List Demand :=
  match choice.maps with
  | none => []
  | some maps =>
    [⟨Path.field i j, "api_name", f.apiName.isSome⟩,
      ⟨Path.choice i j k, "actual_value", choice.actualValue.isSome⟩]
      ++ x.mapDemands i j k maps

/-- An accepted field is asked for its choices. -/
def fieldDemands (i j : Nat) (f : Field) : List Demand :=
  if x.accepts f then
    [⟨Path.field i j, "pick_list_values", f.choices.isSome⟩]
      ++ f.choiceList.zipIdx.flatMap fun (choice, k) => x.choiceDemands i j f k choice
  else []

/-- The keys that a layout is asked for, in reading order. -/
def demands (l : Layout) : List Demand :=
  l.indexedFields.flatMap fun (i, j, f) => x.fieldDemands i j f

end Extractor

/-! ## Rules -/

namespace FieldMap

/-- The effects by which a map shows or hides its target: the field of its `api_name`, otherwise the
section of its `id`. -/
inductive Displays (map : FieldMap) : List Call → Prop where
  | silent : map.visible = none → Displays map []
  | aimless : map.apiName = none → map.id = none → Displays map []
  | field {visible : Bool} {apiName : String} : map.visible = some visible →
    map.apiName = some apiName → Displays map [.setVisible visible (.ofField apiName)]
  | area {visible : Bool} {id : String} : map.visible = some visible → map.apiName = none →
    map.id = some id → Displays map [.setVisible visible (.ofSection id)]

/-- An effect leaves a choice that a map lists on offer, in the choice's own field or else in that
of the map. -/
def Allows (map : FieldMap) (dependent : Choice) (effect : Call) : Prop :=
  ∃ apiName actualValue, dependent.apiName.or map.apiName = some apiName
    ∧ dependent.actualValue = some actualValue ∧ effect = .allow apiName actualValue

/-- The effects of a map: what it shows or hides, then one for each choice that it lists. -/
def Declares (map : FieldMap) (effects : List Call) : Prop :=
  ∃ displays allows, map.Displays displays ∧ List.Forall₂ map.Allows map.dependents allows
    ∧ effects = displays ++ allows

theorem displays_visibilityEffects (map : FieldMap) : map.Displays map.visibilityEffects := by
  cases hv : map.visible with
  | none => simpa [visibilityEffects, hv] using Displays.silent hv
  | some visible =>
    cases hn : map.apiName with
    | some apiName =>
      simpa [visibilityEffects, visibilityTarget?, hv, hn] using Displays.field hv hn
    | none =>
      cases hi : map.id with
      | some id =>
        simpa [visibilityEffects, visibilityTarget?, hv, hn, hi] using Displays.area hv hn hi
      | none => simpa [visibilityEffects, visibilityTarget?, hv, hn, hi] using Displays.aimless hn hi

end FieldMap

namespace Extractor

variable (x : Extractor)

/-- The choices with maps of accepted fields, each with its field, in their order. -/
def mappedChoices (fields : List Field) : List (Field × Choice) :=
  (fields.filter x.accepts).flatMap fun f => (f.choiceList.filter Choice.hasMaps).map fun c => (f, c)

/-- The rule of a choice with maps in a field. -/
structure Yields (source : Field × Choice) (r : Rule) : Prop where
  condition : ∃ apiName actualValue, source.1.apiName = some apiName
    ∧ source.2.actualValue = some actualValue ∧ r.condition = .is apiName actualValue
  rejected : r.rejected = []
  ignored : x.policy = .ignore → r.fulfilled = []
  fulfilled : x.policy = .fulfill → ∃ parts,
    List.Forall₂ FieldMap.Declares (source.2.maps.getD []) parts ∧ r.fulfilled = parts.flatten

theorem mappedChoices_flatMap {α : Type} (parts : α → List Field) (xs : List α) :
    x.mappedChoices (xs.flatMap parts) = xs.flatMap fun a => x.mappedChoices (parts a) := by
  simp only [mappedChoices, List.filter_flatMap, List.flatMap_assoc]

end Extractor

/-! ## What extraction reads and yields -/

theorem FieldMap.reads_allowEffect (map : FieldMap) (path : Path) (dependent : Choice) :
    Reads (map.dependentDemands path dependent) (map.Allows dependent)
      (map.allowEffect path dependent) := by
  refine Reads.require_bind fun apiName hname => ?_
  refine (Reads.require _ path "actual_value").bind_ok fun actualValue hvalue => ?_
  exact ⟨apiName, actualValue, hname, hvalue, rfl⟩

theorem FieldMap.reads_effects (i j k m : Nat) (map : FieldMap) :
    Reads (map.demands i j k m) map.Declares (map.effects (.map i j k m)) := by
  have hallows : Reads (map.demands i j k m) (List.Forall₂ map.Allows map.dependents)
      (checkAll map.allowEffect ((Path.map i j k m).key "pick_list_values") 0 map.dependents) :=
    Reads.checkAll (fun d => map.reads_allowEffect (.dependent i j k m d)) 0 map.dependents
  refine hallows.bind_ok fun allows hallowed => ?_
  exact ⟨_, allows, map.displays_visibilityEffects, hallowed, rfl⟩

namespace Extractor

variable (x : Extractor)

/-- What the maps of a choice are asked for, and the effects that they have under a policy. -/
theorem reads_effects (i j k : Nat) (maps : List FieldMap) :
    Reads (x.mapDemands i j k maps)
      (fun effects => (x.policy = .ignore → effects = []) ∧ (x.policy = .fulfill → ∃ parts,
        List.Forall₂ FieldMap.Declares maps parts ∧ effects = parts.flatten))
      (x.effects (.choice i j k) maps) := by
  unfold mapDemands effects
  cases hp : x.policy with
  | ignore =>
    apply Reads.ok
    simp
  | fulfill =>
    have hparts : Reads _ (List.Forall₂ FieldMap.Declares maps)
        (checkAll FieldMap.effects ((Path.choice i j k).key "maps") 0 maps) :=
      Reads.checkAll (FieldMap.reads_effects i j k) 0 maps
    refine hparts.map fun parts h => ?_
    simpa using ⟨parts, h, rfl⟩

theorem reads_choiceRules (i j : Nat) (f : Field) (k : Nat) (choice : Choice) :
    Reads (x.choiceDemands i j f k choice)
      (List.Forall₂ x.Yields (([choice].filter Choice.hasMaps).map fun c => (f, c)))
      (x.choiceRules (.field i j) f (.choice i j k) choice) := by
  unfold choiceDemands choiceRules
  cases hm : choice.maps with
  | none =>
    apply Reads.ok
    simp [Choice.hasMaps, hm]
  | some maps =>
    have hsource : ([choice].filter Choice.hasMaps).map (fun c => (f, c)) = [(f, choice)] := by
      simp [Choice.hasMaps, hm]
    rw [hsource]
    refine Reads.require_bind fun apiName hname => ?_
    refine Reads.require_bind fun actualValue hvalue => ?_
    refine (x.reads_effects i j k maps).bind_ok fun effects heffects => ?_
    refine .cons ?_ .nil
    exact {
      condition := ⟨apiName, actualValue, hname, hvalue, rfl⟩
      rejected := rfl
      ignored := heffects.1
      fulfilled := by simpa [hm] using heffects.2 }

theorem reads_fieldRules (i j : Nat) (f : Field) :
    Reads (x.fieldDemands i j f) (List.Forall₂ x.Yields (x.mappedChoices [f]))
      (x.fieldRules (.field i j) f) := by
  unfold fieldDemands fieldRules
  cases ha : x.accepts f with
  | false =>
    apply Reads.ok
    simp [mappedChoices, ha]
  | true =>
    refine Reads.require_bind fun choices hchoices => ?_
    have hlist : f.choiceList = choices := by rw [Field.choiceList, hchoices, Option.getD_some]
    have hrules : Reads _ (List.Forall₂ _ choices)
        (checkAll (x.choiceRules (.field i j) f) ((Path.field i j).key "pick_list_values") 0
          choices) :=
      Reads.checkAll (x.reads_choiceRules i j f) 0 choices
    rw [hlist]
    refine hrules.bind_ok fun rules h => ?_
    have hmapped : x.mappedChoices [f]
        = choices.flatMap fun c => ([c].filter Choice.hasMaps).map fun c => (f, c) := by
      rw [← List.map_flatMap, ← List.filter_flatMap, List.flatMap_singleton']
      simp [mappedChoices, ha, hlist]
    rw [hmapped]
    exact forall₂_flatten h

theorem reads_sectionRules (i : Nat) (s : Section) :
    Reads (s.fields.zipIdx.flatMap fun (f, j) => x.fieldDemands i j f)
      (List.Forall₂ x.Yields (x.mappedChoices s.fields))
      (x.sectionRules ((Path.root.key "sections").index i) s) := by
  have hrules : Reads _ (List.Forall₂ _ s.fields)
      (checkAll x.fieldRules (((Path.root.key "sections").index i).key "fields") 0 s.fields) :=
    Reads.checkAll (x.reads_fieldRules i) 0 s.fields
  refine hrules.map fun rules h => ?_
  have hmapped := x.mappedChoices_flatMap (fun f => [f]) s.fields
  rw [List.flatMap_singleton'] at hmapped
  rw [hmapped]
  exact forall₂_flatten h

/-- Extraction asks a layout for its demands, in reading order, and yields one rule for each choice
with maps of an accepted field, in document order. -/
theorem reads_extract (l : Layout) :
    Reads (x.demands l) (List.Forall₂ x.Yields (x.mappedChoices l.fields)) (x.extract l) := by
  have hrules : Reads _ (List.Forall₂ _ l.sections)
      (checkAll x.sectionRules (Path.root.key "sections") 0 l.sections) :=
    Reads.checkAll x.reads_sectionRules 0 l.sections
  rw [demands, l.flatMap_indexedFields x.fieldDemands]
  refine hrules.map fun rules h => ?_
  rw [Layout.fields, mappedChoices_flatMap]
  exact forall₂_flatten h

end Extractor

end FormRules
