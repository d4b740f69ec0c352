-- SUMMARY: Rules and drafts are read from a text as from the value it stands for.
import FormRules.Layout.Draft.Json
import FormRules.Proofs.Json.Faithful

/-!
# Drafts are read faithfully

Every record of rules and drafts stores each of its keys in a place of its own, and so the whole of a
draft is read alike in whatever order its keys stand.
-/

namespace FormRules

open Json Reader

/-! ## Rules -/

theorem Operand.faithful_reader : Operand.reader.Faithful := by
  have htext := faithful_text.optional
  refine faithful_record ?read (by simp [Slot.defaulted, Slot.apart_of_map])
  simp only [List.forall_mem_cons]
  exact ⟨htext.map _, htext.map _, htext.map _, by simp⟩

theorem Call.faithful_reader : Call.reader.Faithful := by
  refine faithful_fix fun self hself => faithful_record ?read
    (by simp [Slot.required, Slot.defaulted, Slot.apart_of_map])
  have hargument : (either "RuleArgument" (self.map Argument.call)
      (Operand.reader.map Argument.operand)).Faithful :=
    (hself.map _).either (Operand.faithful_reader.map _)
  simp only [List.forall_mem_cons]
  exact ⟨faithful_text.map _, hargument.list.map _, by simp⟩

theorem Rule.faithful_reader : Rule.reader.Faithful := by
  refine faithful_record ?read (by simp [Slot.required, Slot.defaulted, Slot.apart_of_map])
  have hcalls := Call.faithful_reader.list
  have hcondition : Call.conditionReader.Faithful := Call.faithful_reader.either (hcalls.map _)
  simp only [List.forall_mem_cons]
  exact ⟨hcondition.map _, hcalls.map _, hcalls.map _, by simp⟩

/-! ## Drafts -/

theorem DraftMap.faithful_readerWith {self : Reader DraftChoice} (h : self.Faithful) :
    (DraftMap.readerWith self).Faithful := by
  refine faithful_record ?read (by simp [Slot.optional, Slot.apart_of_map])
  have htext := faithful_text.optional
  simp only [List.forall_mem_cons]
  exact ⟨htext.map _, htext.map _, faithful_bool.optional.map _, h.list.optional.map _, by simp⟩

theorem DraftChoice.faithful_reader : DraftChoice.reader.Faithful := by
  refine faithful_fix fun self hself => faithful_record ?read
    (by simp [Slot.optional, Slot.defaulted, Slot.apart_of_map])
  have htext := faithful_text.optional
  have hmaps := (DraftMap.faithful_readerWith hself).list.optional
  simp only [List.forall_mem_cons]
  exact ⟨htext.map _, htext.map _, htext.map _, hmaps.map _, by simp⟩

theorem DraftField.faithful_reader : DraftField.reader.Faithful := by
  refine faithful_record ?read (by simp [Slot.optional, Slot.apart_of_map])
  have htext := faithful_text.optional
  have hbool := faithful_bool.optional
  simp only [List.forall_mem_cons]
  exact ⟨htext.map _, htext.map _, htext.map _, htext.map _, htext.map _, hbool.map _, hbool.map _,
    faithful_any.optional.map _, DraftChoice.faithful_reader.list.optional.map _, by simp⟩

theorem DraftSection.faithful_reader : DraftSection.reader.Faithful := by
  refine faithful_record ?read (by simp [Slot.optional, Slot.apart_of_map])
  have htext := faithful_text.optional
  simp only [List.forall_mem_cons]
  exact ⟨htext.map _, htext.map _, faithful_bool.optional.map _,
    DraftField.faithful_reader.list.optional.map _, by simp⟩

theorem Draft.faithful_reader : Draft.reader.Faithful := by
  refine faithful_record ?read (by simp [Slot.optional, Slot.apart_of_map])
  simp only [List.forall_mem_cons]
  exact ⟨DraftSection.faithful_reader.list.optional.map _,
    Rule.faithful_reader.list.optional.map _, by simp⟩

end FormRules
