-- SUMMARY: What a form offers is what its layout lists, less the choices that maps have left out.
import FormRules.Form.View
import FormRules.Proofs.Form.Reachable

/-!
# Choices on offer

A map that lists choices for a field leaves those choices of the layout on offer whose actual values
it lists. Whatever restrictions came before, what is recorded is taken anew from the layout, so that
every reachable state offers choices of the layout only, in its order (`Form.Reachable.offers`).
-/

namespace FormRules

/-- The choices that a layout lists for a name: those of the last field that declares it. -/
def Layout.listedChoices (l : Layout) (apiName : String) : List Choice :=
  match l.field? apiName with
  | some field => field.choiceList
  | none => []

/-- Some choices are what is left of others when each is kept or dropped by its actual value. One
without an actual value is dropped. -/
def RestrictedByValue (choices listed : List Choice) : Prop :=
  ∃ kept : String → Bool, choices = listed.filter fun c => c.actualValue.any kept

theorem RestrictedByValue.sublist {choices listed : List Choice}
    (h : RestrictedByValue choices listed) : choices.Sublist listed := by
  obtain ⟨kept, rfl⟩ := h
  exact List.filter_sublist

namespace Form

variable {f : Form} {s : FormState}

theorem restrictedByValue_restricted (f : Form) (apiName : String) (listed : List Choice) :
    RestrictedByValue (f.restricted apiName listed) (f.layout.listedChoices apiName) := by
  refine ⟨(listed.filterMap (·.actualValue)).contains, ?_⟩
  unfold restricted Layout.listedChoices
  cases f.layout.field? apiName with
  | none => rfl
  | some field =>
    refine List.filter_congr fun c _ => ?_
    cases c.actualValue <;> rfl

/-- Every list of choices in a state restricts the one that the layout has for the field; sections
have none. -/
structure Offers (f : Form) (s : FormState) : Prop where
  fields : ∀ apiName choices, s.choices? (.field apiName) = some choices →
    RestrictedByValue choices (f.layout.listedChoices apiName)
  areas : ∀ id, s.choices? (.area id) = none

theorem Offers.empty (f : Form) : f.Offers {} where
  fields := by simp [FormState.choices?, FormState.presentation?]
  areas := by simp [FormState.choices?, FormState.presentation?]

theorem Offers.store (h : f.Offers s) (apiName value : String) : f.Offers (s.store apiName value) where
  fields := by simpa using h.fields
  areas := by simpa using h.areas

/-- A map takes the choices that it leaves a field from the layout, not from what was on offer. -/
theorem Offers.applyMap (h : f.Offers s) (m : FieldMap) : f.Offers (f.applyMap s m) where
  fields := by
    intro apiName choices hchoices
    rw [choices?_applyMap] at hchoices
    split at hchoices
    · cases hm : m.choices with
      | none => exact h.fields apiName choices (by simpa [mapChoices, hm] using hchoices)
      | some listed =>
        obtain rfl : f.restricted apiName listed = choices := by
          simpa [mapChoices, hm] using hchoices
        exact f.restrictedByValue_restricted apiName listed
    · exact h.fields apiName choices hchoices
  areas := by
    intro id
    rw [choices?_applyMap]
    split
    · exact h.areas id
    · exact h.areas id

theorem Offers.set (h : f.Offers s) (apiName value : String) :
    f.Offers (f.set s apiName value).1 := by
  have hstore := h.store apiName value
  obtain ⟨e, _, hset⟩ | ⟨maps, _, hset⟩ := f.set_cases s apiName value
  · rw [hset]
    exact hstore
  · rw [hset]
    exact applyMaps_induction (fun _ m hs => hs.applyMap m) hstore maps

theorem Reachable.offers (h : f.Reachable s) : f.Offers s :=
  h.induction (Offers.empty f) fun _ apiName value hs => hs.set apiName value

end Form

/-- In every reachable state the choices that are recorded for a field are some of those that the
layout lists for it, in the same order, each kept or dropped by its actual value. No section has
choices, and a field offers nothing that the layout does not list for it. -/
theorem reachable_offers_listed_choices {f : Form} {s : FormState} (h : f.Reachable s) :
    (∀ apiName choices, s.choices? (.field apiName) = some choices →
      choices.Sublist (f.layout.listedChoices apiName)
        ∧ RestrictedByValue choices (f.layout.listedChoices apiName))
    ∧ (∀ id, s.choices? (.area id) = none)
    ∧ ∀ apiName choices, f.allowedChoices s apiName = some choices →
      ∀ c ∈ choices, c ∈ f.layout.listedChoices apiName := by
  have hoffers := h.offers
  refine ⟨fun apiName choices hc => ?_, hoffers.areas, fun apiName choices hc => ?_⟩
  · have hrestricted := hoffers.fields apiName choices hc
    exact ⟨hrestricted.sublist, hrestricted⟩
  · rw [Form.allowedChoices, Option.or_eq_some_iff] at hc
    rcases hc with hrecorded | ⟨_, hlayout⟩
    · exact fun c hmem => (hoffers.fields apiName choices hrecorded).sublist.subset hmem
    · obtain ⟨field, hfield, hchoices⟩ := Option.bind_eq_some_iff.mp hlayout
      have hlisted : f.layout.listedChoices apiName = choices := by
        simp [Layout.listedChoices, hfield, Field.choiceList, hchoices]
      exact fun c hmem => hlisted ▸ hmem

/-- A field that is declared twice is restricted twice, first by a map that finds it by its `id`. -/
theorem reachable_offers_listed_choices_of_size :
    let small : Choice := { actualValue := some "S" }
    let large : Choice := { actualValue := some "L" }
    let unnamed : Choice := { displayValue := some "other" }
    let layout : Layout := {
      sections := [{ fields := [
        { apiName := some "size", dataType := "text", id := some "f-size" },
        { apiName := some "kind", dataType := "pick_list", choices := some [
            { actualValue := some "shirt", maps := some [
              { id := some "f-size", choices := some [small] }] },
            { actualValue := some "coat", maps := some [
              { apiName := some "size", choices := some [large, { actualValue := some "XL" }] }] }] },
        { apiName := some "size", dataType := "pick_list"
          choices := some [small, large, unnamed, { large with displayValue := some "big" }] }] }] }
    let f : Form := ⟨layout, ⟨[]⟩⟩
    ∃ s, f.Reachable s
      ∧ s.choices? (.field "size") = some [large, { large with displayValue := some "big" }]
      ∧ [large, { large with displayValue := some "big" }].Sublist
        (f.layout.listedChoices "size") := by
  intro small large unnamed layout f
  obtain ⟨s, hs, hchoices⟩ : ∃ s, f.start {} = .ok s
      ∧ (f.set s "kind" "coat").1.choices? (.field "size")
        = some [large, { large with displayValue := some "big" }] := ⟨_, rfl, rfl⟩
  have hreach : f.Reachable (f.set s "kind" "coat").1 :=
    (Form.Reachable.start hs).edit "kind" "coat"
  exact ⟨_, hreach, hchoices, ((reachable_offers_listed_choices hreach).1 _ _ hchoices).1⟩

end FormRules
