-- SUMMARY: A draft that is read, written and read again is the same draft.
import FormRules.Layout.Loading
import FormRules.Proofs.Json.Keeping
import FormRules.Proofs.Layout.Faithful
import FormRules.Proofs.Layout.Writing

/-!
# Writing a draft anew

Whatever JSON value a draft is read from, what is written for it is read as the same draft. The
written value need not be the first one: keys may change their places, arrays become objects, `null`
and unknown keys vanish, and a list of conditions becomes the call that all of them hold.
-/

namespace FormRules

open Json Reader

/-! ## Drafts that are read -/

theorem DraftField.isRead_of_reader {node : Node} {f : DraftField}
    (h : DraftField.reader node = .ok f) : f.IsRead := by
  refine record_keeps ?_ (by simp [DraftField.IsRead]) h
  -- all keys but one leave the default value alone
  have hother : ∀ {α : Type} {key : String} {p : Presence} {r : Reader α}
      {store : α → DraftField → DraftField}, (∀ a s, (store a s).defaultValue = s.defaultValue) →
      Slot.Keeps DraftField.IsRead ⟨key, p, r.map store⟩ := fun hstore =>
    Slot.keeps_of_map fun _ a _ s hs => by rwa [DraftField.IsRead, hstore a s]
  simp only [List.forall_mem_cons]
  refine ⟨hother fun _ _ => rfl, hother fun _ _ => rfl, hother fun _ _ => rfl,
    hother fun _ _ => rfl, hother fun _ _ => rfl, hother fun _ _ => rfl, hother fun _ _ => rfl,
    ?_, hother fun _ _ => rfl, by simp⟩
  refine Slot.keeps_of_map fun node o ho s hs x hx => ?_
  obtain rfl : o = some x := hx
  exact optional_any_eq_ok_some ho

theorem DraftSection.isRead_of_reader {node : Node} {s : DraftSection}
    (h : DraftSection.reader node = .ok s) : s.IsRead := by
  refine record_keeps ?_ (by simp [DraftSection.IsRead]) h
  simp only [List.forall_mem_cons]
  refine ⟨Slot.keeps_of_map fun _ _ _ _ hs => hs, Slot.keeps_of_map fun _ _ _ _ hs => hs,
    Slot.keeps_of_map fun _ _ _ _ hs => hs, Slot.keeps_of_map fun node fs hfs s hs => ?_, by simp⟩
  exact forall_of_optional (fun _ _ => forall_of_list fun _ _ => DraftField.isRead_of_reader) hfs

theorem Draft.isRead_of_reader {node : Node} {d : Draft} (h : Draft.reader node = .ok d) :
    d.IsRead := by
  refine record_keeps ?_ (by simp [Draft.IsRead]) h
  simp only [List.forall_mem_cons]
  refine ⟨Slot.keeps_of_map fun node ss hss s hs => ?_, Slot.keeps_of_map fun _ _ _ _ hs => hs,
    by simp⟩
  exact forall_of_optional (fun _ _ => forall_of_list fun _ _ => DraftSection.isRead_of_reader) hss

/-! ## Reading again -/

/-- What a faithful reader accepts in every text it reads from the value as well. -/
theorem Json.Reader.Faithful.fromJson_eq_ok {α : Type} {r : Reader α} (hr : r.Faithful) {j : Json}
    {a : α} (hj : j.DistinctKeys) (h : ∀ n, r.Accepts n j a) : r.fromJson j = .ok a := by
  obtain ⟨node, hnode⟩ := hj.exists_mirrors
  exact (hr hnode a).mp (h node.height node hnode.holds (Nat.le_refl _))

theorem Draft.ofJson_eq_ok {j : Json} {d : Draft} :
    Draft.ofJson j = .ok d ↔ Draft.reader (Node.ofJson j) = .ok d :=
  mapError_eq_ok

/-- Let a draft be read from a JSON value, whatever its form is. What is then written for it is read
as the same draft, down to what its choices tell about their maps, and is loaded as the same layout
or fails for the same key that is missing. Drafts that differ are written differently. -/
theorem draft_survives_rewriting {j : Json} {d : Draft} (h : Draft.ofJson j = .ok d) :
    Draft.ofJson d.toJson = .ok d
    ∧ Layout.ofJson d.toJson = Layout.ofJson j
    ∧ ∀ (j' : Json) (d' : Draft), Draft.ofJson j' = .ok d' → d'.toJson = d.toJson → d' = d := by
  have hreread : ∀ {j : Json} {d : Draft}, Draft.ofJson j = .ok d →
      Draft.ofJson d.toJson = .ok d := fun h => by
    have hd := Draft.isRead_of_reader (Draft.ofJson_eq_ok.mp h)
    exact Draft.ofJson_eq_ok.mpr (Draft.faithful_reader.fromJson_eq_ok
      (Draft.distinctKeys_toJson hd) fun n => Draft.accepts_reader n hd)
  refine ⟨hreread h, ?_, fun j' d' h' hwritten => ?_⟩
  · rw [Layout.ofJson, Layout.ofJson, hreread h, h]
  · have hsame := hreread h'
    rw [hwritten, hreread h] at hsame
    exact (Except.ok.inj hsame).symm

/-- A draft with a section in the array form, a key that no draft has, a list of conditions, and
choices whose maps are missing, `null` and empty, on their own and inside of maps. -/
theorem draft_survives_rewriting_of_status :
    let maps : Json := .list [.object [("pick_list_values", .list [
      .object [("maps", .list [])], .list [.text "b", .null, .null, .null],
      .list [.null, .null, .null]])]]
    let choices : Json := .list [.object [("actual_value", .text "a"), ("maps", maps)],
      .object [("maps", .null)], .object []]
    let field : Json := .object [("pick_list_values", choices), ("default_value",
      .object [("y", .null), ("x", .bool true)]), ("id", .null)]
    let j : Json := .object [("note", .null), ("sections", .list [
      .list [.null, .text "Main", .null, .list [field]]]),
      ("rules", .list [.list [.list [.list [.text "or"]], .list [], .list []]])]
    let ms : List DraftMap := [{ choices := some [
      { maps := some (some []) }, { actualValue := "b", maps := some none }, {}] }]
    let f : DraftField := {
      defaultValue := some (.object [("x", .bool true), ("y", .null)])
      choices := some [{ actualValue := "a", maps := some (some ms) }, { maps := some none }, {}] }
    let d : Draft := {
      sections := some [{ name := "Main", fields := some [f] }]
      rules := some [{ condition := .all [⟨"or", []⟩] }] }
    Draft.ofJson j = .ok d ∧ Draft.ofJson d.toJson = .ok d
      ∧ Layout.ofJson d.toJson = Layout.ofJson j := by
  intro maps choices field j ms f d
  have h : Draft.ofJson j = .ok d := by rfl
  obtain ⟨hreread, hlayout, -⟩ := draft_survives_rewriting h
  exact ⟨h, hreread, hlayout⟩

end FormRules
