-- SUMMARY: Which updates touch a condition as it stands in a rule, and that compiling keeps this.
import FormRules.Proofs.Condition.Conjunction
import FormRules.Proofs.Condition.Dependence

/-!
# Updates that touch a call

`Call.IsTouched` reads off a condition as it stands in a rule which updates can concern it. A name
may have any number of arguments there, and none at all: `and` is touched if all of its arguments
are, `or` if one of them is, and `is` if one of its operands stands for an updated field. It knows
no joins of two sides and no truth values in the place of missing arguments. Compiling brings in
both and changes nothing (`compiled_condition_is_touched_as_call`).
-/

namespace FormRules

/-! ## Touched calls -/

/-- An operand stands for an updated field: it gives no text, or the empty one, and it names a field,
not by the empty text, that was updated. -/
structure Operand.IsUpdated (updated : List String) (o : Operand) : Prop where
  value : ∀ text, o.value = some text → text = ""
  field : ∃ apiName ∈ updated, o.field = some apiName ∧ apiName ≠ ""

mutual

/-- An update touches a call, where names stand for built-in functions: `is` through an operand,
`and` through all of its arguments, and `or` through one of them. -/
inductive Call.IsTouched (vocabulary : Vocabulary) (updated : List String) : Call → Prop where
  | is {c : Call} {o : Operand} (hfunc : vocabulary c.func = some .is)
    (ho : .operand o ∈ c.args) (h : o.IsUpdated updated) : Call.IsTouched vocabulary updated c
  | and {c : Call} (hfunc : vocabulary c.func = some .and)
    (h : ∀ a ∈ c.args, Argument.IsTouched vocabulary updated a) :
    Call.IsTouched vocabulary updated c
  | or {c : Call} {a : Argument} (hfunc : vocabulary c.func = some .or) (ha : a ∈ c.args)
    (h : Argument.IsTouched vocabulary updated a) : Call.IsTouched vocabulary updated c

/-- An update touches an argument: the argument is a call, and the update touches that. -/
inductive Argument.IsTouched (vocabulary : Vocabulary) (updated : List String) :
    Argument → Prop where
  | call {c : Call} (h : Call.IsTouched vocabulary updated c) :
    Argument.IsTouched vocabulary updated (.call c)

end

section

variable {vocabulary : Vocabulary} {updated : List String}

theorem Argument.isTouched_call_iff {c : Call} :
    (Argument.call c).IsTouched vocabulary updated ↔ c.IsTouched vocabulary updated := by
  constructor
  · intro h
    cases h with
    | call h => exact h
  · exact .call

namespace Call

variable {func : String} {args : List Argument}

theorem isTouched_is_iff (hfunc : vocabulary func = some .is) :
    IsTouched vocabulary updated ⟨func, args⟩ ↔ ∃ o, .operand o ∈ args ∧ o.IsUpdated updated := by
  constructor
  · intro h
    cases h with
    | @is _ o _ ho h => exact ⟨o, ho, h⟩
    | and hand _ => simp [hfunc] at hand
    | or hor _ _ => simp [hfunc] at hor
  · intro ⟨o, ho, h⟩
    exact .is hfunc ho h

theorem isTouched_and_iff (hfunc : vocabulary func = some .and) :
    IsTouched vocabulary updated ⟨func, args⟩ ↔ ∀ a ∈ args, a.IsTouched vocabulary updated := by
  constructor
  · intro h
    cases h with
    | is his _ _ => simp [hfunc] at his
    | and _ h => exact h
    | or hor _ _ => simp [hfunc] at hor
  · intro h
    exact .and hfunc h

theorem isTouched_or_iff (hfunc : vocabulary func = some .or) :
    IsTouched vocabulary updated ⟨func, args⟩ ↔ ∃ a ∈ args, a.IsTouched vocabulary updated := by
  constructor
  · intro h
    cases h with
    | is his _ _ => simp [hfunc] at his
    | and hand _ => simp [hfunc] at hand
    | @or _ a _ ha h => exact ⟨a, ha, h⟩
  · intro ⟨a, ha, h⟩
    exact .or hfunc ha h

end Call

/-! ## Compiling keeps what touches a call -/

namespace Expr

theorem isTouchedBy_joined_or (updated : List String) (es : List Expr) :
    (Builtin.joined .or false es).isTouchedBy updated = es.any (isTouchedBy updated) :=
  Builtin.joined_or_eq_any rfl (fun _ _ => rfl) es

end Expr

/-- The expression of an operand is a field exactly if the operand names it and gives no text. -/
theorem Operand.toExpr_eq_field_iff {o : Operand} {apiName : String} :
    o.toExpr = .field apiName ↔
      (∀ text, o.value = some text → text = "") ∧ o.field = some apiName ∧ apiName ≠ "" := by
  unfold toExpr
  split
  · next text hvalue =>
    have hsaid : o.value = some text ∧ text ≠ "" := by
      simpa [Option.filter_eq_some_iff] using hvalue
    constructor
    · intro h
      cases h
    · intro ⟨hempty, _⟩
      exact absurd (hempty text hsaid.1) hsaid.2
  · next name hvalue hfield =>
    have hempty : ∀ text, o.value = some text → text = "" := by
      simpa [Option.filter_eq_none_iff] using hvalue
    have hnamed : o.field = some name ∧ name ≠ "" := by
      simpa [Option.filter_eq_some_iff] using hfield
    constructor
    · intro h
      cases h
      exact ⟨hempty, hnamed⟩
    · intro ⟨_, hother, _⟩
      cases hnamed.1.symm.trans hother
      rfl
  · next hfield =>
    have hunnamed : ∀ name, o.field = some name → name = "" := by
      simpa [Option.filter_eq_none_iff] using hfield
    constructor
    · intro h
      cases h
    · intro ⟨_, hother, hne⟩
      exact absurd (hunnamed apiName hother) hne

theorem Operand.isFieldAmong_toExpr (o : Operand) :
    o.toExpr.isFieldAmong updated = true ↔ o.IsUpdated updated := by
  simp only [Expr.isFieldAmong_iff, toExpr_eq_field_iff]
  constructor
  · intro ⟨apiName, hupdated, hvalue, hfield⟩
    exact ⟨hvalue, apiName, hupdated, hfield⟩
  · intro ⟨hvalue, apiName, hupdated, hfield⟩
    exact ⟨apiName, hupdated, hvalue, hfield⟩

/-- An update touches a compiled call exactly if it touches the call. -/
theorem Call.isTouchedBy_iff_of_compile {registry : Registry} (hs : registry.Speaks vocabulary)
    {c : Call} {e : Expr} (h : c.compile registry = .ok e) :
    e.isTouchedBy updated = true ↔ c.IsTouched vocabulary updated := by
  refine Call.compile_induction hs
    (motive := fun c e => e.isTouchedBy updated = true ↔ c.IsTouched vocabulary updated)
    ?is ?and ?or c e h
  case is =>
    intro func l r hb
    simp [Call.isTouched_is_iff hb, Expr.isTouchedBy, Operand.isFieldAmong_toExpr, or_and_right,
      exists_or]
  case and =>
    intro func members hb ih
    simp only [Expr.isTouchedBy_joined_and, List.all_eq_true, Call.isTouched_and_iff hb,
      List.forall_mem_map, Argument.isTouched_call_iff]
    exact forall₂_congr ih
  case or =>
    intro func members hb ih
    simp only [Expr.isTouchedBy_joined_or, List.any_eq_true, Call.isTouched_or_iff hb,
      List.mem_map, exists_exists_and_eq_and, Argument.isTouched_call_iff]
    exact exists_congr fun m => and_congr_right (ih m)

end

/-- An update touches what the default registry compiles a call to exactly if it touches the call, as
it stands, by the names of the built-in functions. -/
theorem compiled_condition_is_touched_as_call {c : Call} {e : Expr}
    (h : c.compile .default = .ok e) (updated : List String) :
    e.isTouchedBy updated = true ↔ c.IsTouched Builtin.ofName? updated :=
  Call.isTouchedBy_iff_of_compile Registry.default_speaks h

/-- An update of `kind` touches the first member of the disjunction, which also has an empty
conjunction in it. An update of `note` touches nothing: the operand that names it gives a text. -/
theorem compiled_condition_is_touched_as_call_of_kind :
    let kind : Call := ⟨"is", [.operand (.ofValue "person"), .operand (.ofField "kind")]⟩
    let note : Operand := { field := some "note", value := some "none" }
    let c : Call := ⟨"or", [.call ⟨"and", [.call kind, .call ⟨"and", []⟩]⟩,
      .call ⟨"is", [.operand note, .operand (.ofValue "none")]⟩, .call ⟨"or", []⟩]⟩
    ∃ e, c.compile .default = .ok e
      ∧ c.IsTouched Builtin.ofName? ["kind"] ∧ ¬ c.IsTouched Builtin.ofName? ["note"] := by
  intro kind note c
  obtain ⟨e, he, hkind, hnote⟩ : ∃ e, c.compile .default = .ok e
    ∧ e.isTouchedBy ["kind"] = true ∧ e.isTouchedBy ["note"] = false := ⟨_, rfl, rfl, rfl⟩
  have htouched := compiled_condition_is_touched_as_call he
  refine ⟨e, he, (htouched ["kind"]).mp hkind, ?_⟩
  intro h
  exact absurd ((htouched ["note"]).mpr h) (by simp [hnote])

end FormRules
