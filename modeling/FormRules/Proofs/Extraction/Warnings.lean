-- SUMMARY: An extraction warns of the maps that say whether something is shown, but not what.
import FormRules.Extraction.Warnings
import FormRules.Proofs.Extraction.Reading

/-!
# The aimless maps of a layout

`Extractor.aimlessMaps` lists the places of the maps that say whether something is shown but name
neither a field nor a section. An extraction that succeeds has warned of these and of nothing else, in
document order; one that fails has warned of a beginning of them (`Extractor.warns_extract`). Both are
said at once of every nested array: what stands before the first element that fails has been warned
of as a whole, that element in part, and what follows it not at all.
-/

namespace FormRules

/-! ## Aimless maps -/

/-- A map says whether something is shown, but names neither a field nor a section. -/
def FieldMap.isAimless (m : FieldMap) : Bool := m.visible.isSome && m.apiName.isNone && m.id.isNone

namespace Extractor

variable (x : Extractor)

/-- The places of the aimless maps of a choice, if its maps are read. -/
def choiceAimlessMaps (i j k : Nat) (choice : Choice) : List Path :=
  match x.policy with
  | .ignore => []
  | .fulfill => (choice.maps.getD []).zipIdx.flatMap fun (map, m) =>
    if map.isAimless then [Path.map i j k m] else []

def fieldAimlessMaps (i j : Nat) (f : Field) : List Path :=
  if x.accepts f then
    f.choiceList.zipIdx.flatMap fun (choice, k) => x.choiceAimlessMaps i j k choice
  else []

/-- The places of the aimless maps that an extraction reads, in document order. -/
def aimlessMaps (l : Layout) : List Path :=
  l.indexedFields.flatMap fun (i, j, f) => x.fieldAimlessMaps i j f

end Extractor

/-! ## Computations that warn -/

/-- A computation warns of the maps at a beginning of some places, and of all if it succeeds. -/
structure Warns {α : Type} (paths : List Path) (log : List Warning) (c : Except LayoutError α) :
    Prop where
  beginning : log <+: paths.map .aimlessMap
  complete : ∀ y, c = .ok y → log = paths.map .aimlessMap

namespace Warns

variable {α β : Type} {paths : List Path} {log : List Warning} {c : Except LayoutError α}

theorem whole (h : log = paths.map .aimlessMap) : Warns paths log c where
  beginning := h ▸ List.prefix_rfl
  complete _ _ := h

/-- A computation that fails need not have warned of anything. -/
theorem of_error {e : LayoutError} : Warns paths [] (.error e : Except LayoutError α) where
  beginning := List.nil_prefix
  complete _ h := by cases h

theorem bind (h : Warns paths log c) (k : α → Except LayoutError β) :
    Warns paths log (c >>= k) where
  beginning := h.beginning
  complete _ hbind := by
    obtain ⟨y, hc, _⟩ := bind_eq_ok.mp hbind
    exact h.complete y hc

theorem map (h : Warns paths log c) (f : α → β) : Warns paths log (c.map f) where
  beginning := h.beginning
  complete _ hmap := by
    obtain ⟨y, hc, _⟩ := map_eq_ok.mp hmap
    exact h.complete y hc

/-- A check of all elements of an array warns of the maps of each, in their order. -/
theorem checkAll {check : Path → α → Except LayoutError β} {path : Path}
    {log : Path → α → List Warning} {paths : Nat → α → List Path}
    (h : ∀ i x, Warns (paths i x) (log (path.index i) x) (check (path.index i) x))
    (index : Nat) (xs : List α) :
    Warns ((xs.zipIdx index).flatMap fun (x, i) => paths i x) (logAll check log path index xs)
      (checkAll check path index xs) := by
  induction xs generalizing index with
  | nil => exact whole rfl
  | cons x rest ih =>
    obtain ⟨hbeginning, hcomplete⟩ := h index x
    rw [List.zipIdx_cons, List.flatMap_cons, logAll, FormRules.checkAll]
    cases hx : check (path.index index) x with
    | error e =>
      -- What this element has logged is not known to be all, but nothing follows it.
      constructor
      · rw [List.append_nil, List.map_append]
        exact hbeginning.trans (List.prefix_append _ _)
      · intro _ hok
        cases hok
    | ok y =>
      rw [hcomplete y hx, ok_bind]
      have hrest := (ih (index + 1)).bind fun ys => .ok (y :: ys)
      constructor
      · rw [List.map_append]
        exact (List.prefix_append_right_inj _).mpr hrest.beginning
      · intro ys hys
        rw [List.map_append, hrest.complete ys hys]

end Warns

/-! ## What an extraction warns of -/

theorem FieldMap.warns_effects (i j k m : Nat) (map : FieldMap) :
    Warns (if map.isAimless then [Path.map i j k m] else []) (map.warnings (.map i j k m))
      (map.effects (.map i j k m)) := by
  refine .whole ?_
  unfold warnings isAimless visibilityTarget?
  cases map.visible <;> cases map.apiName <;> cases map.id <;> rfl

namespace Extractor

variable (x : Extractor)

theorem warns_effects (i j k : Nat) {choice : Choice} {maps : List FieldMap}
    (h : choice.maps = some maps) :
    Warns (x.choiceAimlessMaps i j k choice) (x.mapWarnings (.choice i j k) maps)
      (x.effects (.choice i j k) maps) := by
  unfold choiceAimlessMaps mapWarnings effects
  rw [h, Option.getD_some]
  cases x.policy with
  | ignore => exact .whole rfl
  | fulfill =>
    have hmaps : Warns _ _ (checkAll FieldMap.effects ((Path.choice i j k).key "maps") 0 maps) :=
      Warns.checkAll (FieldMap.warns_effects i j k) 0 maps
    exact hmaps.map _

theorem warns_choiceRules (i j : Nat) (f : Field) (k : Nat) (choice : Choice) :
    Warns (x.choiceAimlessMaps i j k choice) (x.choiceWarnings f (.choice i j k) choice)
      (x.choiceRules (.field i j) f (.choice i j k) choice) := by
  unfold choiceWarnings choiceRules
  cases hmaps : choice.maps with
  | none =>
    refine .whole ?_
    unfold choiceAimlessMaps
    rw [hmaps]
    cases x.policy <;> rfl
  | some maps =>
    cases f.apiName with
    | none => exact .of_error
    | some apiName =>
      cases choice.actualValue with
      | none => exact .of_error
      | some actualValue => exact (x.warns_effects i j k hmaps).bind _

theorem warns_fieldRules (i j : Nat) (f : Field) :
    Warns (x.fieldAimlessMaps i j f) (x.fieldWarnings (.field i j) f)
      (x.fieldRules (.field i j) f) := by
  unfold fieldWarnings fieldAimlessMaps fieldRules Field.choiceList
  split
  · cases f.choices with
    | none => exact .of_error
    | some choices =>
      have hchoices : Warns _ _ (checkAll (x.choiceRules (.field i j) f)
          ((Path.field i j).key "pick_list_values") 0 choices) :=
        Warns.checkAll (x.warns_choiceRules i j f) 0 choices
      exact hchoices.bind _
  · exact .whole rfl

theorem warns_sectionRules (i : Nat) (s : Section) :
    Warns (s.fields.zipIdx.flatMap fun (f, j) => x.fieldAimlessMaps i j f)
      (x.sectionWarnings ((Path.root.key "sections").index i) s)
      (x.sectionRules ((Path.root.key "sections").index i) s) := by
  have hfields : Warns _ _
      (checkAll x.fieldRules (((Path.root.key "sections").index i).key "fields") 0 s.fields) :=
    Warns.checkAll (x.warns_fieldRules i) 0 s.fields
  exact hfields.map _

/-- An extraction warns of the aimless maps of a layout, in document order: of all of them if it
succeeds, and otherwise of those before the place where it fails. -/
theorem warns_extract (l : Layout) : Warns (x.aimlessMaps l) (x.warnings l) (x.extract l) := by
  have hsections : Warns _ _ (checkAll x.sectionRules (Path.root.key "sections") 0 l.sections) :=
    Warns.checkAll x.warns_sectionRules 0 l.sections
  rw [aimlessMaps, l.flatMap_indexedFields x.fieldAimlessMaps]
  exact hsections.map _

end Extractor

end FormRules
