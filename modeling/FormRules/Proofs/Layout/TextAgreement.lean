-- SUMMARY: A layout is loaded from a text as from the JSON value of the text.
import FormRules.Layout.Loading
import FormRules.Proofs.Json.Parsed
import FormRules.Proofs.Layout.Faithful
import Mathlib

/-!
# Loading from texts and from values

A text can be loaded as it stands, or be read as a JSON value first and loaded from that. The ways
meet in the draft: as drafts are read faithfully, either way gives the same draft or none.
-/

namespace FormRules

open Json

/-- Two attempts to load a layout end alike: with the same layout, with the same key missing from
the object at the same path, or with an unreadable document, whatever the words are. -/
inductive Layout.LoadedAlike : Except LayoutError Layout → Except LayoutError Layout → Prop where
  | loaded (l : Layout) : LoadedAlike (.ok l) (.ok l)
  | incomplete (key : String) (path : Path) :
      LoadedAlike (.error (.missingKey key path)) (.error (.missingKey key path))
  | unreadable (f f' : Failure) (source source' : Option String) :
      LoadedAlike (.error (.unreadable f source)) (.error (.unreadable f' source'))

theorem Layout.LoadedAlike.refl (result : Except LayoutError Layout) :
    LoadedAlike result result := by
  match result with
  | .ok l => exact .loaded l
  | .error (.missingKey key path) => exact .incomplete key path
  | .error (.unreadable f source) => exact .unreadable f f source source

/-- A text that is JSON, and in which no object repeats a key, is loaded as the JSON value that it
is read as. -/
theorem text_is_loaded_as_value {source : String} {j : Json} (hj : Json.ofText source = .ok j)
    (hkeys : (Source.ofText source).root.HasDistinctKeys) :
    Layout.LoadedAlike (Layout.ofText source) (Layout.ofJson j) := by
  have hdraft := Draft.faithful_reader.fromText_eq_ok_iff hj hkeys
  rw [Layout.ofText, Layout.ofJson, Draft.ofText, Draft.ofJson]
  cases htext : Draft.reader.fromText source with
  | ok d =>
    rw [(hdraft d).mp htext]
    exact .refl (d.validate)
  | error f =>
    cases hmemory : Draft.reader.fromJson j with
    | ok d => simp [(hdraft d).mpr hmemory] at htext
    | error f' => exact .unreadable f f' (some source) none

/-- A document whose keys stand in no particular order, with a section in the array form, a list of
conditions and a key that no rule has. -/
theorem text_is_loaded_as_value_of_status :
    let source := "\x7b\"sections\":[[null,null,true,[\x7b\"data_type\":\"text\"\x7d]]],"
      ++ "\"rules\":[\x7b\"x\":1,\"conditions\":[[\"or\"]]\x7d]\x7d"
    let j : Json := .object [
      ("rules", .list [.object [("conditions", .list [.list [.text "or"]]),
        ("x", .number (.natural 1))]]),
      ("sections", .list [.list [.null, .null, .bool true,
        .list [.object [("data_type", .text "text")]]]])]
    Json.ofText source = .ok j ∧ (Source.ofText source).root.HasDistinctKeys
      ∧ Layout.LoadedAlike (Layout.ofText source) (Layout.ofJson j) := by
  intro source j
  have hj : Json.ofText source = .ok j := by
    unfold source j
    cbv
  have hkeys : (Source.ofText source).root.HasDistinctKeys := by
    unfold source
    cbv
    simp
  exact ⟨hj, hkeys, text_is_loaded_as_value hj hkeys⟩

end FormRules
