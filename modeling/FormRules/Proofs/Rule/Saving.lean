-- SUMMARY: A rule set that is written is read back as it was.
import FormRules.Command.Run
import FormRules.Proofs.File
import FormRules.Proofs.Json.Accepting

/-!
# Saving rule sets

Every rule set is read back from its text as it was. An operand is written without a mark that tells
it from a call, and yet is not taken for one: a call has a name, which no operand has.
-/

namespace FormRules

open Json Reader

/-! ## Written rules have no numbers -/

theorem Json.numberless_of_mem_entry (key : String) (value : Option String) :
    ∀ e ∈ Json.entry? key (value.map .text), e.2.Numberless := by
  cases value with
  | none => simp
  | some s => simpa using .text s

theorem Operand.numberless_toJson (o : Operand) : o.toJson.Numberless := by
  refine .object ?_
  simp only [List.forall_mem_append]
  exact ⟨⟨numberless_of_mem_entry _ _, numberless_of_mem_entry _ _⟩, numberless_of_mem_entry _ _⟩

mutual

theorem Call.numberless_toJson : ∀ c : Call, c.toJson.Numberless
  | ⟨func, args⟩ => by
    refine .object ?_
    simp only [List.forall_mem_cons]
    exact ⟨.text func, .list (numberless_argumentsToJson args), by simp⟩

theorem Argument.numberless_toJson : ∀ a : Argument, a.toJson.Numberless
  | .call c => c.numberless_toJson
  | .operand o => o.numberless_toJson

theorem numberless_argumentsToJson :
    ∀ args : List Argument, ∀ j ∈ argumentsToJson args, j.Numberless
  | [] => by simp [argumentsToJson]
  | a :: rest => by
    simp only [argumentsToJson, List.forall_mem_cons]
    exact ⟨a.numberless_toJson, numberless_argumentsToJson rest⟩

end

theorem Rule.numberless_toJson (r : Rule) : r.toJson.Numberless := by
  have hcalls : ∀ calls : List Call, (Json.list (calls.map Call.toJson)).Numberless :=
    fun calls => .list (by simpa using fun c _ => c.numberless_toJson)
  refine .object ?_
  simp only [List.forall_mem_cons]
  exact ⟨r.condition.numberless_toJson, hcalls r.fulfilled, hcalls r.rejected, by simp⟩

theorem RuleSet.numberless_toJson (rules : RuleSet) : rules.toJson.Numberless :=
  .list (by simpa using fun r _ => Rule.numberless_toJson r)

/-! ## Reading what is written -/

theorem Operand.accepts_reader (n : Nat) (o : Operand) : Operand.reader.Accepts n o.toJson o := by
  have htext := writes_text n
  refine Accepts.mono (accepts_record ?_) (Nat.le_succ n)
  rw [List.append_assoc, ← List.append_nil ( Json.entry? "value" _)]
  suffices h : FillsAfter _ n [] _ _ o from h [] (List.Subset.refl _)
  refine fillsAfter_entry rfl rfl (by simp) (htext _) rfl ?_
  refine fillsAfter_entry rfl rfl (by simp) (htext _) rfl ?_
  exact fillsAfter_entry rfl rfl (by simp) (htext _) rfl fun _ _ => fills_nil rfl

/-- An operand has no name, and so is not read as a call. -/
theorem Call.refuses_operand (n : Nat) (o : Operand) :
    (unfold Call.readerStep n).Refuses o.toJson := by
  cases n with
  | zero => exact fun node _ => ⟨_, rfl⟩
  | succ n =>
    refine refuses_record List.mem_cons_self rfl ?_
    obtain ⟨sectionId, field, value⟩ := o
    cases sectionId <;> cases field <;> cases value <;> simp [Slot.required]

theorem Call.accepts_unfold (n : Nat) (c : Call) :
    (unfold Call.readerStep n).Accepts n c.toJson c := by
  induction n generalizing c with
  | zero =>
    intro node hnode hheight
    obtain ⟨func, args⟩ := c
    obtain ⟨start, found, rfl, -⟩ := hnode.eq_object
    exact absurd hheight (by simp [Node.height])
  | succ n ih =>
    obtain ⟨func, args⟩ := c
    have hargument : ∀ a ∈ args, (either "RuleArgument" ((unfold Call.readerStep n).map .call)
        (Operand.reader.map .operand)).Accepts n a.toJson a := by
      intro a _
      cases a with
      | call c => exact accepts_either_first ((ih c).map Argument.call)
      | operand o =>
        exact accepts_either_second ((Call.refuses_operand n o).map Argument.call)
          ((Operand.accepts_reader n o).map Argument.operand)
    have hargs := (accepts_list hargument).mono (Nat.le_succ n)
    rw [← argumentsToJson_eq_map] at hargs
    refine accepts_record ?_
    refine fills_cons rfl (by simp) ((accepts_text n func).map _) ?_
    exact fills_cons rfl (by simp) (hargs.map _) (fills_nil rfl)

theorem Call.accepts_reader (n : Nat) (c : Call) : Call.reader.Accepts n c.toJson c :=
  accepts_fix (fun n => c.accepts_unfold n) n

theorem Rule.accepts_reader (n : Nat) (r : Rule) : Rule.reader.Accepts n r.toJson r := by
  have hcalls : ∀ calls : List Call,
      (Reader.list Call.reader).Accepts n (.list (calls.map Call.toJson)) calls :=
    fun calls => (accepts_list fun c _ => c.accepts_reader n).mono (Nat.le_succ n)
  have hcondition : Call.conditionReader.Accepts n r.condition.toJson r.condition :=
    accepts_either_first (r.condition.accepts_reader n)
  refine Accepts.mono (accepts_record ?_) (Nat.le_succ n)
  refine fills_cons rfl (by simp) (hcondition.map _) ?_
  refine fills_cons rfl (by simp) ((hcalls r.fulfilled).map _) ?_
  exact fills_cons rfl (by simp) ((hcalls r.rejected).map _) (fills_nil rfl)

theorem RuleSet.accepts_reader (n : Nat) (rules : RuleSet) :
    RuleSet.reader.Accepts n rules.toJson rules :=
  (accepts_list fun r _ => Rule.accepts_reader n r).mono (Nat.le_succ n)

/-! ## Texts and files -/

namespace RuleSet

variable {rules : RuleSet}

/-- A rule set is read back from its text, with a line break after it or without. -/
theorem ofText_text (hdepth : rules.toJson.nesting ≤ Json.deepestNesting) (pretty : Bool) :
    RuleSet.ofText (RuleSet.text pretty rules) = .ok rules :=
  fromText_write (accepts_reader · rules) rules.numberless_toJson hdepth pretty blanks_nil
    (List.append_nil _).symm

theorem ofText_fileText (hdepth : rules.toJson.nesting ≤ Json.deepestNesting) (pretty : Bool) :
    RuleSet.ofText (RuleSet.fileText pretty rules) = .ok rules :=
  fromText_write (accepts_reader · rules) rules.numberless_toJson hdepth pretty
    (by simp [Blanks, Cursor.isBlank]) String.toList_append

end RuleSet

/-- A rule set that is written, indented or compact, is read back as it was: from its text, and from
every file in which it is saved but the empty one, which keeps nothing. -/
theorem saved_rules_are_read_back {rules : RuleSet}
    (hdepth : rules.toJson.nesting ≤ Json.deepestNesting) (pretty : Bool) :
    RuleSet.ofText (RuleSet.text pretty rules) = .ok rules
    ∧ RuleSet.ofText (RuleSet.fileText pretty rules) = .ok rules
    ∧ ∀ (d d' : Directory) (path : String), d.place ⟨path⟩ ≠ .ok .emptyFile →
        d.write path (RuleSet.fileText pretty rules) = .ok d' →
        readFile d'.read path RuleSet.ofText = .ok rules := by
  have hfile := RuleSet.ofText_fileText hdepth pretty
  refine ⟨RuleSet.ofText_text hdepth pretty, hfile, fun d d' path hempty hwrite => ?_⟩
  simp [readFile, Directory.read_write hwrite hempty, hfile]

/-- A nested condition with an operand that has no key and a text that needs escapes, saved beside
another file. -/
theorem saved_rules_are_read_back_of_delivery :
    let condition : Call := ⟨"and", [.call (.is "country" "D\tE"), .operand {}, .call ⟨"or", []⟩]⟩
    let rules : RuleSet := [{ condition, fulfilled := [.setVisible true (.ofSection "\"new\"")] }]
    let d := Directory.ofList [("data/layout.json", "")]
    rules.toJson.nesting ≤ Json.deepestNesting
      ∧ ∃ d', d.write "data/rules.json" (RuleSet.fileText true rules) = .ok d'
        ∧ readFile d'.read "data/rules.json" RuleSet.ofText = .ok rules := by
  intro condition rules d
  have hdepth : rules.toJson.nesting ≤ Json.deepestNesting := by decide
  have hplace : d.place ⟨"data/rules.json"⟩ = .ok { way := ["data", "rules.json"] } := rfl
  have hwrite : d.write "data/rules.json" (RuleSet.fileText true rules)
      = .ok (d.put { way := ["data", "rules.json"] } (RuleSet.fileText true rules)) := by
    simp [Directory.write, hplace]
  obtain ⟨-, -, hsaved⟩ := saved_rules_are_read_back hdepth true
  exact ⟨hdepth, _, hwrite, hsaved d _ _ (by simp [hplace, Location.emptyFile]) hwrite⟩

end FormRules
