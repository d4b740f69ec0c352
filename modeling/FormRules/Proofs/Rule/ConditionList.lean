-- SUMMARY: A rule with a list of conditions is read, compiled and evaluated as all of them.
import FormRules.Proofs.Condition.Conjunction
import FormRules.Proofs.Evaluator.Verdict
import FormRules.Proofs.Json.Elements
import FormRules.Proofs.Json.Replacing
import FormRules.Rule.Json

/-!
# Lists of conditions

The condition of a rule may be written as a list of calls. A call may be written as a list too, and
is looked for first; but what is read first in such a list is the name of the call, and a name is no
call. So a list of calls is never taken for one of them, whatever their number and their form, and
the rule has all of them as its condition.
-/

namespace FormRules

open Json Reader

/-! ## Conditions -/

/-- What is read as a call is no text. -/
theorem Call.text_of_reader {v : Node} {c : Call} (h : Call.reader v = .ok c) :
    ∃ f, Reader.text v = .error f := by
  match v with
  | .scalar (.ok s) _ => cases s <;> cases h
  | .scalar (.error _) _ => cases h
  | .list _ _ _ => exact ⟨_, rfl⟩
  | .object _ _ _ => exact ⟨_, rfl⟩
  | .broken _ _ => cases h

/-- An array of calls is not read as one call: where that would have its name there is a call. -/
theorem Call.reader_list_eq_error {start : Nat} {found : Items}
    (h : ∀ v ∈ found.nodes, ∃ c, Call.reader v = .ok c) :
    ∃ f, Call.reader (.list start none found) = .error f := by
  cases found with
  -- an array without elements lacks the name
  | closed stop => exact ⟨_, rfl⟩
  | broken read skip => exact ⟨_, rfl⟩
  | more value settle surplus rest =>
    obtain ⟨c, hc⟩ := h value List.mem_cons_self
    obtain ⟨f, hf⟩ := Call.text_of_reader hc
    refine ⟨(f.under (.index 0)).placedAt settle, ?_⟩
    simp [Call.reader, fix, unfold, Node.height, Call.readerStep, record, recordItems, Slot.required,
      part, Reader.map, hf]

theorem Call.conditionReader_eq_ok {v : Node} {x : Json} {c : Call} (hv : v.value = .ok x)
    (hc : Call.reader v = .ok c) : Call.conditionReader v = .ok c := by
  simp [Call.conditionReader, either, hv, hc]

/-- An array of calls is read as all of them. -/
theorem Call.conditionReader_list {array : Node} {xs : List Json} {calls : List Call}
    (harray : array.value = .ok (.list xs))
    (hcalls : List.Forall₂ (fun v c => Call.reader v = .ok c) array.elements calls) :
    Call.conditionReader array = .ok (.all calls) := by
  obtain ⟨start, found, rfl, hvalues⟩ := Node.value_eq_list harray
  obtain ⟨f, hf⟩ : ∃ f, Call.reader (.list start none found) = .error f :=
    Call.reader_list_eq_error (exists_forall₂_iff.mp ⟨calls, hcalls⟩)
  have hlist : Reader.list Call.reader (.list start none found) = .ok calls :=
    items_eq_ok_of_nodes hvalues hcalls
  simp [Call.conditionReader, either, harray, hf, Reader.map, hlist]

/-! ## Rules -/

/-- A rule as it is written, with another condition: under its key in the object form, in the first
place in the array form. Every rule with a given condition arises so, from one with another. -/
def Json.Node.withCondition (rule v : Node) : Node :=
  match rule with
  | .object start tooDeep found => .object start tooDeep (found.withValue "conditions" v)
  | .list start tooDeep (.more _ settle surplus rest) =>
    .list start tooDeep (.more v settle surplus rest)
  | node => node

/-- A rule with another condition. -/
def Rule.withCondition (r : Rule) (condition : Call) : Rule := { r with condition }

/-- The keys of a rule, as `Rule.reader` has them. -/
def Rule.slots : List (Slot Rule) := [
  .required "conditions" Call.conditionReader fun condition r => { r with condition },
  .defaulted "fulfilled" (.list Call.reader) fun fulfilled r => { r with fulfilled },
  .defaulted "rejected" (.list Call.reader) fun rejected r => { r with rejected }]

theorem Rule.reader_eq_record : Rule.reader = Reader.record "Rule" Rule.slots default := rfl

theorem Rule.replaces_condition (c : Call) :
    Replaces Rule.slots "conditions" fun r => r.withCondition c := by
  constructor
  · simp only [Rule.slots, List.forall_mem_cons]
    refine ⟨fun _ node other h s => ?conditions, fun h => ?fulfilled, fun h => ?rejected, by simp⟩
    case conditions =>
      obtain ⟨_, _, rfl⟩ := map_eq_ok.mp h
      rfl
    case fulfilled => simp [Slot.defaulted] at h
    case rejected => simp [Slot.defaulted] at h
  · simp only [Rule.slots, List.forall_mem_cons]
    refine ⟨fun h => ?conditions, fun _ node other h s => ?fulfilled,
      fun _ node other h s => ?rejected, by simp⟩
    case conditions => simp [Slot.required] at h
    case fulfilled =>
      obtain ⟨_, _, rfl⟩ := map_eq_ok.mp h
      rfl
    case rejected =>
      obtain ⟨_, _, rfl⟩ := map_eq_ok.mp h
      rfl

/-- A rule with another condition is read as it was, with that condition. -/
theorem Rule.reader_withCondition {rule v : Node} {r : Rule} {c : Call}
    (hrule : Rule.reader rule = .ok r) (hc : Call.conditionReader v = .ok c) :
    Rule.reader (rule.withCondition v) = .ok (r.withCondition c) := by
  have hstore := Rule.replaces_condition c
  have hread : (Slot.required "conditions" Call.conditionReader
      fun condition (r : Rule) => { r with condition }).read v
      = .ok fun r => r.withCondition c := by
    simp [Slot.required, Reader.map, hc, Rule.withCondition]
  rw [Rule.reader_eq_record] at hrule ⊢
  match rule with
  | .scalar (.ok _) _ => cases hrule
  | .scalar (.error _) _ => cases hrule
  | .list _ (some _) _ => cases hrule
  | .list _ none (.closed _) => cases hrule
  | .list _ none (.broken _ _) => cases hrule
  | .list _ none (.more value settle surplus rest) =>
    have hfound : recordItems "Rule" 3 0 default Rule.slots (.more value settle surplus rest)
        = .ok r := hrule
    exact recordItems_withFirst hstore rfl (by simp [Slot.defaulted]) hread hfound
  | .object _ (some _) _ => cases hrule
  | .object _ none _ =>
    exact recordMembers_withValue hstore rfl rfl hread hrule rfl (by simp)
  | .broken _ _ => cases hrule

/-! ## What the rule means -/

/-- What a rule is compiled to if its condition is compiled to an expression. -/
def Rule.compiledWith (r : Rule) (index : Nat) (condition : Expr) : CompiledRule :=
  { index, condition, fulfilled := r.fulfilled, rejected := r.rejected }

@[simp] theorem Rule.condition_compiledWith (r : Rule) (index : Nat) (e : Expr) :
    (r.compiledWith index e).condition = e := rfl

theorem Rule.compile_withCondition_eq_ok {registry : Registry} {index : Nat} {r : Rule} {c : Call}
    {compiled : CompiledRule} : (r.withCondition c).compile registry index = .ok compiled ↔
      ∃ e, c.compile registry = .ok e ∧ r.compiledWith index e = compiled :=
  map_eq_ok

theorem Rule.compile_withCondition_succeeds_iff {registry : Registry} {index : Nat} {r : Rule}
    {c : Call} : (∃ compiled, (r.withCondition c).compile registry index = .ok compiled)
      ↔ ∃ e, c.compile registry = .ok e := by
  simp only [Rule.compile_withCondition_eq_ok]
  constructor
  · rintro ⟨_, e, he, _⟩
    exact ⟨e, he⟩
  · rintro ⟨e, he⟩
    exact ⟨_, e, he, rfl⟩

theorem Rule.evaluate_compiledWith (r : Rule) (index : Nat) {e : Expr} (h : e.IsCondition)
    (values : FormValues) : ∃ o, (r.compiledWith index e).evaluate values = .ok o
      ∧ o.fulfilled = e.holds values := by
  obtain ⟨o, ho, hverdict⟩ := map_eq_ok.mp ((r.compiledWith index e).evaluate_verdict h values)
  exact ⟨o, ho, congrArg Verdict.fulfilled hverdict⟩

/-- A compiled rule on all of some calls goes with the rules on each of them alone. -/
theorem Rule.singles_of_compile_all {r : Rule} {calls : List Call} {index : Nat} {all : CompiledRule}
    (h : (r.withCondition (.all calls)).compile .default index = .ok all) :
    ∃ singles, List.Forall₂
        (fun c single => (r.withCondition c).compile .default index = .ok single) calls singles
      ∧ (∀ values, ∃ o, all.evaluate values = .ok o ∧ (o.fulfilled = true ↔
          ∀ single ∈ singles, ∃ o', single.evaluate values = .ok o' ∧ o'.fulfilled = true))
      ∧ ∀ updated, all.condition.isTouchedBy updated = true ↔
          ∀ single ∈ singles, single.condition.isTouchedBy updated = true := by
  obtain ⟨e, he, rfl⟩ := Rule.compile_withCondition_eq_ok.mp h
  have hcondition := Call.isCondition_of_compile Registry.default_speaks he
  obtain ⟨es, hes, rfl⟩ := Call.compile_all_eq_ok.mp he
  refine ⟨es.map (r.compiledWith index), ?singles, fun values => ?fulfilled, fun updated => ?touched⟩
  case singles =>
    rw [List.forall₂_map_right_iff]
    exact hes.imp fun c e hc => Rule.compile_withCondition_eq_ok.mpr ⟨e, hc, rfl⟩
  case fulfilled =>
    obtain ⟨o, ho, hfulfilled⟩ := r.evaluate_compiledWith index hcondition values
    refine ⟨o, ho, ?_⟩
    rw [hfulfilled, Expr.holds_joined_and, List.all_eq_true, List.forall_mem_map]
    refine forall₂_congr fun e hmem => ?_
    obtain ⟨c, hc⟩ := exists_forall₂_iff.mp ⟨calls, hes.flip⟩ e hmem
    obtain ⟨o', ho', hfulfilled'⟩ := r.evaluate_compiledWith index
      (Call.isCondition_of_compile Registry.default_speaks hc) values
    simp [ho', hfulfilled']
  case touched =>
    simp only [Rule.condition_compiledWith, Expr.isTouchedBy_joined_and, List.all_eq_true,
      List.forall_mem_map]

/-- Let an array be JSON, and let each of its elements be read as a call. A rule, in either form, is
then read with the array as its condition, as it is read with each element. It is compiled exactly
if each of the calls is. Whatever a form holds, the rule is then fulfilled exactly if the rules on
each of the calls alone are, and an update touches it exactly if it touches all of them. -/
theorem condition_list_means_all {array rule : Node} {xs : List Json} {calls : List Call} {r : Rule}
    (harray : array.value = .ok (.list xs))
    (hcalls : List.Forall₂ (fun v c => Call.reader v = .ok c) array.elements calls)
    (hrule : Rule.reader rule = .ok r) :
    Rule.reader (rule.withCondition array) = .ok (r.withCondition (.all calls))
    ∧ List.Forall₂ (fun v c => Rule.reader (rule.withCondition v) = .ok (r.withCondition c))
        array.elements calls
    ∧ ∀ index,
      ((∃ all, (r.withCondition (.all calls)).compile .default index = .ok all)
        ↔ ∀ c ∈ calls, ∃ e, c.compile .default = .ok e)
      ∧ ∀ all, (r.withCondition (.all calls)).compile .default index = .ok all →
        ∃ singles, List.Forall₂
            (fun c single => (r.withCondition c).compile .default index = .ok single) calls singles
          ∧ (∀ values, ∃ o, all.evaluate values = .ok o ∧ (o.fulfilled = true ↔
              ∀ single ∈ singles, ∃ o', single.evaluate values = .ok o' ∧ o'.fulfilled = true))
          ∧ ∀ updated, all.condition.isTouchedBy updated = true ↔
              ∀ single ∈ singles, single.condition.isTouchedBy updated = true := by
  have hall : Call.conditionReader array = .ok (.all calls) :=
    Call.conditionReader_list harray hcalls
  refine ⟨Rule.reader_withCondition hrule hall, ?_, fun index => ⟨?_, fun all => ?_⟩⟩
  · obtain ⟨start, found, rfl, hvalues⟩ := Node.value_eq_list harray
    have hsound := Items.exists_value_of_mem hvalues
    refine ((List.forall₂_and_left _ _).mpr ⟨hsound, hcalls⟩).imp fun v c hv => ?_
    obtain ⟨⟨x, hx⟩, hc⟩ := hv
    exact Rule.reader_withCondition hrule (Call.conditionReader_eq_ok hx hc)
  · exact Rule.compile_withCondition_succeeds_iff.trans Call.compile_all_succeeds_iff
  · exact Rule.singles_of_compile_all

/-- A rule in the array form that hides a field unless two conditions hold, one of which is written
as an object and one as an array. -/
theorem condition_list_means_all_of_country :
    let country : Json := .object [("args", .list [.object [("field", .text "country")],
      .object [("value", .text "DE")]]), ("func", .text "is")]
    let array := Node.ofJson (.list [country, .list [.text "or", .list [country]]])
    let calls : List Call := [.is "country" "DE", ⟨"or", [.call (.is "country" "DE")]⟩]
    let effect : Json := .list [.text "hide", .list [.object [("field", .text "vat")]]]
    let rule := Node.ofJson (.list [.list [.text "and"], .list [], .list [effect]])
    let r : Rule := { condition := ⟨"and", []⟩, rejected := [.setVisible false (.ofField "vat")] }
    Rule.reader rule = .ok r
      ∧ Rule.reader (rule.withCondition array) = .ok (r.withCondition (.all calls))
      ∧ ∃ all, (r.withCondition (.all calls)).compile .default 0 = .ok all
        ∧ ∃ singles, List.Forall₂
            (fun c single => (r.withCondition c).compile .default 0 = .ok single) calls singles
          ∧ (∀ values, ∃ o, all.evaluate values = .ok o ∧ (o.fulfilled = true ↔
              ∀ single ∈ singles, ∃ o', single.evaluate values = .ok o' ∧ o'.fulfilled = true))
          ∧ ∀ updated, all.condition.isTouchedBy updated = true ↔
              ∀ single ∈ singles, single.condition.isTouchedBy updated = true := by
  intro country array calls effect rule r
  have harray : array.value = .ok (.list [country, .list [.text "or", .list [country]]]) := rfl
  have hcalls : List.Forall₂ (fun v c => Call.reader v = .ok c) array.elements calls :=
    .cons rfl (.cons rfl .nil)
  have hrule : Rule.reader rule = .ok r := rfl
  have hcompiled : ∀ c ∈ calls, ∃ e, c.compile .default = .ok e := by
    simp only [calls, List.forall_mem_cons]
    exact ⟨⟨_, rfl⟩, ⟨_, rfl⟩, by simp⟩
  obtain ⟨hread, _, hcompile⟩ := condition_list_means_all harray hcalls hrule
  obtain ⟨hsucceeds, hmeans⟩ := hcompile 0
  obtain ⟨all, hall⟩ := hsucceeds.mpr hcompiled
  exact ⟨hrule, hread, all, hall, hmeans all hall⟩

end FormRules
