-- SUMMARY: Written rules and drafts repeat no key, and drafts are read back as they were.
import FormRules.Layout.Draft.Json
import FormRules.Proofs.Json.DistinctKeys
import FormRules.Proofs.Rule.Saving

/-!
# Written drafts

A draft is written with distinct keys, and every node that holds what is written is read as the
draft. Only a default value has to be such as a reader makes it: `null` is read as no default value
at all, and objects are sorted.
-/

namespace FormRules

open Json Reader

/-! ## Distinct keys -/

theorem Operand.distinctKeys_toJson (o : Operand) : o.toJson.DistinctKeys :=
  ((distinctWithin_text _ _).append (distinctWithin_text _ _)).append (distinctWithin_text _ _)
    |>.distinctKeys (by decide)

mutual

theorem Call.distinctKeys_toJson : ∀ c : Call, c.toJson.DistinctKeys
  | ⟨func, args⟩ =>
    (distinctWithin_single "func" (.text func)).append
      (distinctWithin_single "args" (.list (distinctKeys_argumentsToJson args)))
      |>.distinctKeys (by decide)

theorem Argument.distinctKeys_toJson : ∀ a : Argument, a.toJson.DistinctKeys
  | .call c => c.distinctKeys_toJson
  | .operand o => o.distinctKeys_toJson

theorem distinctKeys_argumentsToJson :
    ∀ args : List Argument, ∀ j ∈ argumentsToJson args, j.DistinctKeys
  | [] => by simp [argumentsToJson]
  | a :: rest =>
    List.forall_mem_cons.mpr ⟨a.distinctKeys_toJson, distinctKeys_argumentsToJson rest⟩

end

theorem Rule.distinctKeys_toJson (r : Rule) : r.toJson.DistinctKeys := by
  have hcalls : ∀ calls : List Call, (Json.list (calls.map Call.toJson)).DistinctKeys :=
    fun calls => .list (by simpa using fun c _ => c.distinctKeys_toJson)
  exact (distinctWithin_single "conditions" r.condition.distinctKeys_toJson).append
    (distinctWithin_single "fulfilled" (hcalls r.fulfilled)) |>.append
    (distinctWithin_single "rejected" (hcalls r.rejected)) |>.distinctKeys (by decide)

theorem RuleSet.distinctKeys_toJson (rules : RuleSet) : rules.toJson.DistinctKeys :=
  .list (by simpa using fun r _ => Rule.distinctKeys_toJson r)

/-- What is written for the maps of a choice. -/
def DraftChoice.mapsToJson : Option (List DraftMap) → Json
  | none => .null
  | some ms => .list (draftMapsToJson ms)

theorem DraftChoice.toJson_eq (c : DraftChoice) : c.toJson = .object
    ( Json.entry? "actual_value" (c.actualValue.map .text)
      ++ Json.entry? "display_value" (c.displayValue.map .text)
      ++ Json.entry? "api_name" (c.apiName.map .text)
      ++ Json.entry? "maps" (c.maps.map mapsToJson)) := by
  obtain ⟨_, _, _, _ | _ | _⟩ := c <;> rw [toJson] <;> rfl

theorem DraftMap.toJson_eq (m : DraftMap) : m.toJson = .object
    ( Json.entry? "api_name" (m.apiName.map .text) ++ Json.entry? "id" (m.id.map .text)
      ++ Json.entry? "visible" (m.visible.map .bool)
      ++ Json.entry? "pick_list_values"
        (m.choices.map fun cs => .list (cs.map DraftChoice.toJson))) := by
  obtain ⟨_, _, _, _ | _⟩ := m <;> rw [toJson]
  · rfl
  · rw [draftChoicesToJson_eq_map]
    rfl

mutual

theorem DraftChoice.distinctKeys_toJson : ∀ c : DraftChoice, c.toJson.DistinctKeys
  | { actualValue, displayValue, apiName, maps } => by
    have htexts := ((distinctWithin_text "actual_value" actualValue).append
      (distinctWithin_text "display_value" displayValue)).append
      (distinctWithin_text "api_name" apiName)
    rw [DraftChoice.toJson_eq]
    refine (htexts.append (?_ : DistinctWithin ["maps"] _)).distinctKeys (by decide)
    match maps with
    | none => exact distinctWithin_nil ["maps"]
    | some none => exact distinctWithin_single "maps" .null
    | some (some ms) => exact distinctWithin_single "maps" (.list (distinctKeys_draftMapsToJson ms))

theorem DraftMap.distinctKeys_toJson : ∀ m : DraftMap, m.toJson.DistinctKeys
  | { apiName, id, visible, choices } => by
    have htexts := ((distinctWithin_text "api_name" apiName).append
      (distinctWithin_text "id" id)).append (distinctWithin_bool "visible" visible)
    rw [DraftMap.toJson_eq]
    refine (htexts.append (?_ : DistinctWithin ["pick_list_values"] _)).distinctKeys (by decide)
    match choices with
    | none => exact distinctWithin_nil ["pick_list_values"]
    | some cs =>
      have hchoices := distinctKeys_draftChoicesToJson cs
      rw [draftChoicesToJson_eq_map] at hchoices
      exact distinctWithin_single "pick_list_values" (.list hchoices)

theorem distinctKeys_draftMapsToJson :
    ∀ ms : List DraftMap, ∀ j ∈ draftMapsToJson ms, j.DistinctKeys
  | [] => by simp [draftMapsToJson]
  | m :: rest =>
    List.forall_mem_cons.mpr ⟨m.distinctKeys_toJson, distinctKeys_draftMapsToJson rest⟩

theorem distinctKeys_draftChoicesToJson :
    ∀ cs : List DraftChoice, ∀ j ∈ draftChoicesToJson cs, j.DistinctKeys
  | [] => by simp [draftChoicesToJson]
  | c :: rest =>
    List.forall_mem_cons.mpr ⟨c.distinctKeys_toJson, distinctKeys_draftChoicesToJson rest⟩

end

/-! ## Default values -/

/-- A value as a reader makes it for a key that may be missing or `null`. -/
def Json.IsRead (x : Json) : Prop := x ≠ .null ∧ x.sorted = x

/-- The default value, if there is one, is such as a reader makes it. -/
def DraftField.IsRead (f : DraftField) : Prop := ∀ x ∈ f.defaultValue, x.IsRead

def DraftSection.IsRead (s : DraftSection) : Prop := ∀ fs ∈ s.fields, ∀ f ∈ fs, f.IsRead

def Draft.IsRead (d : Draft) : Prop := ∀ ss ∈ d.sections, ∀ s ∈ ss, s.IsRead

/-- A default value repeats no key, for it is sorted. -/
theorem DraftField.distinctKeys_toJson {f : DraftField} (h : f.IsRead) :
    f.toJson.DistinctKeys := by
  have hchoices : ∀ cs ∈ f.choices, (Json.list (cs.map DraftChoice.toJson)).DistinctKeys :=
    fun cs _ => .list (by simpa using fun c _ => c.distinctKeys_toJson)
  have hdefault : ∀ x ∈ f.defaultValue, x.DistinctKeys := fun x hx =>
    (h x hx).2 ▸ distinctKeys_sorted x
  exact ((((((((distinctWithin_text _ _).append (distinctWithin_text _ _)).append
    (distinctWithin_text _ _)).append (distinctWithin_text _ _)).append
    (distinctWithin_text _ _)).append (distinctWithin_bool _ _)).append
    (distinctWithin_bool _ _)).append (distinctWithin_entry _ hdefault)).append
    (distinctWithin_map _ hchoices) |>.distinctKeys (by decide)

theorem DraftSection.distinctKeys_toJson {s : DraftSection} (h : s.IsRead) :
    s.toJson.DistinctKeys := by
  have hfields : ∀ fs ∈ s.fields, (Json.list (fs.map DraftField.toJson)).DistinctKeys :=
    fun fs hfs => .list (by simpa using fun f hf => DraftField.distinctKeys_toJson (h fs hfs f hf))
  exact (((distinctWithin_text _ _).append (distinctWithin_text _ _)).append
    (distinctWithin_bool _ _)).append (distinctWithin_map _ hfields) |>.distinctKeys (by decide)

theorem Draft.distinctKeys_toJson {d : Draft} (h : d.IsRead) : d.toJson.DistinctKeys := by
  have hsections : ∀ ss ∈ d.sections, (Json.list (ss.map DraftSection.toJson)).DistinctKeys :=
    fun ss hss => .list (by simpa using fun s hs => DraftSection.distinctKeys_toJson (h ss hss s hs))
  exact (distinctWithin_map _ hsections).append
    (distinctWithin_map _ fun rules _ => RuleSet.distinctKeys_toJson rules)
    |>.distinctKeys (by decide)

/-! ## Reading what is written

In each record the keys are gone through one after the other, in the order in which they are
written. -/

theorem DraftMap.accepts_readerWith {self : Reader DraftChoice} {n : Nat}
    (h : ∀ c : DraftChoice, self.Accepts n c.toJson c) (m : DraftMap) :
    (DraftMap.readerWith self).Accepts n m.toJson m := by
  have htext := writes_text n
  have hchoices : ∀ choices : Option (List DraftChoice), (Reader.list self).Writes n
      (choices.map fun cs => .list (cs.map DraftChoice.toJson)) choices := fun choices =>
    writes_map fun cs _ => ⟨by simp, (accepts_list fun c _ => h c).mono (Nat.le_succ n)⟩
  rw [m.toJson_eq]
  obtain ⟨apiName, id, visible, choices⟩ := m
  refine Accepts.mono (accepts_record ?_) (Nat.le_succ n)
  simp only [List.append_assoc]
  rw [← List.append_nil ( Json.entry? "pick_list_values" _)]
  suffices h : FillsAfter _ n [] _ _ _ from h [] (List.Subset.refl _)
  refine fillsAfter_entry rfl rfl (by simp) (htext _) rfl ?_
  refine fillsAfter_entry rfl rfl (by simp) (htext _) rfl ?_
  refine fillsAfter_entry rfl rfl (by simp) (writes_bool n _) rfl ?_
  exact fillsAfter_entry rfl rfl (by simp) (hchoices _) rfl fun _ _ => fills_nil rfl

theorem DraftChoice.accepts_unfold (n : Nat) (c : DraftChoice) :
    (unfold DraftChoice.readerStep n).Accepts n c.toJson c := by
  induction n generalizing c with
  | zero =>
    intro node hnode hheight
    rw [c.toJson_eq] at hnode
    obtain ⟨start, found, rfl, -⟩ := hnode.eq_object
    exact absurd hheight (by simp [Node.height])
  | succ n ih =>
    have htext := writes_text n
    have hmaps : ∀ ms : List DraftMap,
        (Reader.list (DraftMap.readerWith (unfold DraftChoice.readerStep n))).Accepts n
          (.list (draftMapsToJson ms)) ms := fun ms =>
      draftMapsToJson_eq_map ms ▸
        (accepts_list fun m _ => DraftMap.accepts_readerWith ih m).mono (Nat.le_succ n)
    rw [c.toJson_eq]
    obtain ⟨actualValue, displayValue, apiName, maps⟩ := c
    refine accepts_record ?_
    simp only [List.append_assoc]
    suffices h : FillsAfter _ n [] _ _ _ from h [] (List.Subset.refl _)
    refine fillsAfter_entry rfl rfl (by simp) (htext _) rfl ?_
    refine fillsAfter_entry rfl rfl (by simp) (htext _) rfl ?_
    refine fillsAfter_entry rfl rfl (by simp) (htext _) rfl fun seen hseen => ?_
    have hnew : "maps" ∉ seen := fun h => by simpa using hseen h
    match maps with
    | none => exact fills_nil rfl
    | some none => exact fills_cons rfl hnew ((accepts_null _ n).map _) (fills_nil rfl)
    | some (some ms) =>
      exact fills_cons rfl hnew (((hmaps ms).optional (by simp)).map _) (fills_nil rfl)

theorem DraftChoice.accepts_reader (n : Nat) (c : DraftChoice) :
    DraftChoice.reader.Accepts n c.toJson c :=
  accepts_fix (fun n => c.accepts_unfold n) n

theorem DraftField.accepts_reader (n : Nat) {f : DraftField} (hf : f.IsRead) :
    DraftField.reader.Accepts n f.toJson f := by
  have htext := writes_text n
  have hbool := writes_bool n
  have hchoices : (Reader.list DraftChoice.reader).Writes n
      (f.choices.map fun cs => .list (cs.map DraftChoice.toJson)) f.choices :=
    writes_map fun cs _ =>
      ⟨by simp, (accepts_list fun c _ => c.accepts_reader n).mono (Nat.le_succ n)⟩
  refine Accepts.mono (accepts_record ?_) (Nat.le_succ n)
  simp only [List.append_assoc]
  rw [← List.append_nil ( Json.entry? "pick_list_values" _)]
  suffices h : FillsAfter _ n [] _ _ f from h [] (List.Subset.refl _)
  refine fillsAfter_entry rfl rfl (by simp) (htext _) rfl ?_
  refine fillsAfter_entry rfl rfl (by simp) (htext _) rfl ?_
  refine fillsAfter_entry rfl rfl (by simp) (htext _) rfl ?_
  refine fillsAfter_entry rfl rfl (by simp) (htext _) rfl ?_
  refine fillsAfter_entry rfl rfl (by simp) (htext _) rfl ?_
  refine fillsAfter_entry rfl rfl (by simp) (hbool _) rfl ?_
  refine fillsAfter_entry rfl rfl (by simp) (hbool _) rfl ?_
  refine fillsAfter_entry rfl rfl (by simp) (writes_any hf) rfl ?_
  exact fillsAfter_entry rfl rfl (by simp) hchoices rfl fun _ _ => fills_nil rfl

theorem DraftSection.accepts_reader (n : Nat) {s : DraftSection} (hs : s.IsRead) :
    DraftSection.reader.Accepts n s.toJson s := by
  have htext := writes_text n
  have hfields : (Reader.list DraftField.reader).Writes n
      (s.fields.map fun fs => .list (fs.map DraftField.toJson)) s.fields :=
    writes_map fun fs hfs => ⟨by simp,
      (accepts_list fun f hf => DraftField.accepts_reader n (hs fs hfs f hf)).mono (Nat.le_succ n)⟩
  refine Accepts.mono (accepts_record ?_) (Nat.le_succ n)
  simp only [List.append_assoc]
  rw [← List.append_nil ( Json.entry? "fields" _)]
  suffices h : FillsAfter _ n [] _ _ s from h [] (List.Subset.refl _)
  refine fillsAfter_entry rfl rfl (by simp) (htext _) rfl ?_
  refine fillsAfter_entry rfl rfl (by simp) (htext _) rfl ?_
  refine fillsAfter_entry rfl rfl (by simp) (writes_bool n _) rfl ?_
  exact fillsAfter_entry rfl rfl (by simp) hfields rfl fun _ _ => fills_nil rfl

theorem Draft.accepts_reader (n : Nat) {d : Draft} (hd : d.IsRead) :
    Draft.reader.Accepts n d.toJson d := by
  have hsections : (Reader.list DraftSection.reader).Writes n
      (d.sections.map fun ss => .list (ss.map DraftSection.toJson)) d.sections :=
    writes_map fun ss hss => ⟨by simp, (accepts_list fun s hs =>
      DraftSection.accepts_reader n (hd ss hss s hs)).mono (Nat.le_succ n)⟩
  have hrules : RuleSet.reader.Writes n (d.rules.map RuleSet.toJson) d.rules :=
    writes_map fun rules _ => ⟨by simp [RuleSet.toJson], RuleSet.accepts_reader n rules⟩
  refine Accepts.mono (accepts_record ?_) (Nat.le_succ n)
  rw [← List.append_nil ( Json.entry? "rules" _)]
  suffices h : FillsAfter _ n [] _ _ d from h [] (List.Subset.refl _)
  refine fillsAfter_entry rfl rfl (by simp) hsections rfl ?_
  exact fillsAfter_entry rfl rfl (by simp) hrules rfl fun _ _ => fills_nil rfl

end FormRules
