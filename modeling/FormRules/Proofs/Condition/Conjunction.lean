-- SUMMARY: Conjunctions of calls: when they are compiled, when they hold, and what touches them.
import FormRules.Proofs.Condition.Vocabulary
import FormRules.Proofs.Pointwise

/-!
# Conjunctions of calls

A conjunction of any number of calls is compiled exactly if each of the calls is, and it is then the
join of what they are compiled to. It holds if all of them hold, and an update touches it if it
touches all of them; of no calls at all both is true.
-/

namespace FormRules

section

variable {registry : Registry} {vocabulary : Vocabulary}

theorem compileArguments_calls_eq_ok {calls : List Call} {es : List Expr} :
    compileArguments registry (calls.map .call) = .ok (es.map .condition)
      ↔ List.Forall₂ (fun c e => c.compile registry = .ok e) calls es := by
  induction calls generalizing es with
  | nil => cases es <;> simp [compileArguments]
  | cons c rest ih =>
    cases es with
    | nil => simp [compileArguments_eq_nil]
    | cons e es =>
      rw [List.forall₂_cons, ← ih, List.map_cons, List.map_cons, compileArguments_eq_cons]
      constructor
      · rintro ⟨a, args, hargs, ha, hrest⟩
        obtain ⟨rfl, rfl⟩ := List.cons.inj hargs
        obtain ⟨_, hcall, hc⟩ := Argument.compile_eq_condition.mp ha
        cases hcall
        exact ⟨hc, hrest⟩
      · rintro ⟨hc, hrest⟩
        exact ⟨_, _, rfl, Argument.compile_eq_condition.mpr ⟨c, rfl, hc⟩, hrest⟩

theorem Call.compile_and_eq_ok (hs : registry.Speaks vocabulary) {func : String}
    (hfunc : vocabulary func = some .and) {calls : List Call} {e : Expr} :
    Call.compile registry ⟨func, calls.map .call⟩ = .ok e ↔
      ∃ es, List.Forall₂ (fun c e => c.compile registry = .ok e) calls es
        ∧ e = Builtin.joined .and true es := by
  constructor
  · intro h
    obtain ⟨b, parsed, hb, hargs, hparse⟩ := Call.compile_eq_ok hs h
    cases hfunc.symm.trans hb
    obtain ⟨es, hes, rfl⟩ := map_eq_ok.mp hparse
    rw [Builtin.conditions_eq_ok.mp hes] at hargs
    exact ⟨es, compileArguments_calls_eq_ok.mp hargs, rfl⟩
  · rintro ⟨es, hes, rfl⟩
    have hconditions : Builtin.conditions "and" 0 (es.map .condition) = .ok es :=
      Builtin.conditions_eq_ok.mpr rfl
    simp [Call.compile, hs func, hfunc, compileArguments_calls_eq_ok.mpr hes, Builtin.parser,
      hconditions]

end

/-- All of some calls are compiled exactly if each of them is. -/
theorem Call.compile_all_eq_ok {calls : List Call} {e : Expr} :
    (Call.all calls).compile .default = .ok e ↔
      ∃ es, List.Forall₂ (fun c e => c.compile .default = .ok e) calls es
        ∧ e = Builtin.joined .and true es :=
  Call.compile_and_eq_ok Registry.default_speaks rfl

theorem Call.compile_all_succeeds_iff {calls : List Call} :
    (∃ e, (Call.all calls).compile .default = .ok e)
      ↔ ∀ c ∈ calls, ∃ e, c.compile .default = .ok e := by
  rw [← exists_forall₂_iff]
  constructor
  · rintro ⟨e, he⟩
    obtain ⟨es, hes, _⟩ := Call.compile_all_eq_ok.mp he
    exact ⟨es, hes⟩
  · rintro ⟨es, hes⟩
    exact ⟨_, Call.compile_all_eq_ok.mpr ⟨es, hes, rfl⟩⟩

namespace Expr

theorem holds_joined_and (values : FormValues) (es : List Expr) :
    (Builtin.joined .and true es).holds values = es.all (holds values) :=
  Builtin.joined_and_eq_all (holds_literal_bool true) holds_and es

theorem isTouchedBy_joined_and (updated : List String) (es : List Expr) :
    (Builtin.joined .and true es).isTouchedBy updated = es.all (isTouchedBy updated) :=
  Builtin.joined_and_eq_all rfl (fun _ _ => rfl) es

end Expr

end FormRules
