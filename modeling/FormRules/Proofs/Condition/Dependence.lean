-- SUMMARY: On which fields a condition depends, and that alternatives are touched by all of them.
import FormRules.Proofs.Condition.Vocabulary

/-!
# Dependence on fields

What an expression denotes, and how it is evaluated, depends on the values of the fields that it
reads, and on nothing else. Alternatives, which join equalities by `or` alone, are touched by an
update exactly when it gives a value to a field that they read: no change can escape them.
-/

namespace FormRules

/-! ## Fields that are read -/

namespace Expr

theorem mem_requiredFields {e : Expr} {apiName : String} :
    apiName ∈ e.requiredFields ↔ apiName ∈ e.fields := by
  simp [requiredFields, Table.mem_keys_ofList]

/-- Values that agree on the fields that an expression reads give it the same value. -/
theorem value_congr {e : Expr} {values others : FormValues}
    (h : ∀ apiName ∈ e.fields, values.get? apiName = others.get? apiName) :
    e.value values = e.value others := by
  induction e with
  | and l r ihl ihr =>
    obtain ⟨hl, hr⟩ := List.forall_mem_append.mp h
    simp only [value, ihl hl, ihr hr]
  | or l r ihl ihr =>
    obtain ⟨hl, hr⟩ := List.forall_mem_append.mp h
    simp only [value, ihl hl, ihr hr]
  | equal l r ihl ihr =>
    obtain ⟨hl, hr⟩ := List.forall_mem_append.mp h
    simp only [value, ihl hl, ihr hr]
  | literal v => rfl
  | field apiName => simp [value, FormValues.valueOf, h apiName (by simp [fields])]

theorem holds_congr {e : Expr} {values others : FormValues}
    (h : ∀ apiName ∈ e.fields, values.get? apiName = others.get? apiName) :
    e.holds values = e.holds others := by
  rw [holds, holds, value_congr h]

/-- They also give it the same trace or the same error. -/
theorem evaluate_congr {e : Expr} {values others : FormValues}
    (h : ∀ apiName ∈ e.fields, values.get? apiName = others.get? apiName) :
    e.evaluate values = e.evaluate others := by
  induction e with
  | and l r ihl ihr =>
    obtain ⟨hl, hr⟩ := List.forall_mem_append.mp h
    simp only [evaluate, ihl hl, ihr hr]
  | or l r ihl ihr =>
    obtain ⟨hl, hr⟩ := List.forall_mem_append.mp h
    simp only [evaluate, ihl hl, ihr hr]
  | equal l r ihl ihr =>
    obtain ⟨hl, hr⟩ := List.forall_mem_append.mp h
    simp only [evaluate, ihl hl, ihr hr]
  | literal v => rfl
  | field apiName => simp [evaluate, FormValues.valueOf, h apiName (by simp [fields])]

/-! ## Updated fields -/

theorem isFieldAmong_iff {e : Expr} {updated : List String} :
    e.isFieldAmong updated = true ↔ ∃ apiName ∈ updated, e = .field apiName := by
  cases e with
  | field apiName => simp [isFieldAmong]
  | and | or | equal | literal => simp [isFieldAmong]

/-! ## Alternatives -/

/-- Equalities that are joined by `or`, any number of them. -/
inductive IsAlternatives : Expr → Prop where
  | equal {l r : Expr} : l.IsLeaf → r.IsLeaf → IsAlternatives (.equal l r)
  | or {l r : Expr} : IsAlternatives l → IsAlternatives r → IsAlternatives (.or l r)
  | none : IsAlternatives (.literal (.bool false))

theorem IsLeaf.isFieldAmong_iff {e : Expr} (h : e.IsLeaf) (updated : List String) :
    e.isFieldAmong updated = true ↔ ∃ apiName ∈ e.fields, apiName ∈ updated := by
  cases h with
  | literal v => simp [isFieldAmong, fields]
  | field apiName => simp [isFieldAmong, fields]

theorem exists_mem_append {xs ys updated : List String} :
    (∃ apiName ∈ xs ++ ys, apiName ∈ updated)
      ↔ (∃ apiName ∈ xs, apiName ∈ updated) ∨ ∃ apiName ∈ ys, apiName ∈ updated := by
  simp only [List.mem_append, or_and_right, exists_or]

/-- Alternatives are touched by every update of a field that they read, and by no other. -/
theorem IsAlternatives.isTouchedBy_iff {e : Expr} (h : e.IsAlternatives) (updated : List String) :
    e.isTouchedBy updated = true ↔ ∃ apiName ∈ e.fields, apiName ∈ updated := by
  induction h with
  | equal hl hr =>
    rw [isTouchedBy, Bool.or_eq_true, hl.isFieldAmong_iff, hr.isFieldAmong_iff, fields,
      exists_mem_append]
  | or _ _ ihl ihr => rw [isTouchedBy, Bool.or_eq_true, ihl, ihr, fields, exists_mem_append]
  | none => simp [isTouchedBy, fields]

end Expr

/-! ## Calls of `is` and `or` -/

mutual

/-- The names of all functions that a call applies, at any depth. -/
def Call.names : Call → List String
  | ⟨func, args⟩ => func :: argumentNames args

def Argument.names : Argument → List String
  | .call c => c.names
  | .operand _ => []

def argumentNames : List Argument → List String
  | [] => []
  | a :: rest => a.names ++ argumentNames rest

end

theorem argumentNames_eq_flatMap (args : List Argument) :
    argumentNames args = args.flatMap Argument.names := by
  induction args with
  | nil => rfl
  | cons a rest ih => rw [argumentNames, ih, List.flatMap_cons]

theorem Call.mem_names_of_mem {func : String} {args : List Argument} {c : Call}
    (h : .call c ∈ args) {name : String} (hn : name ∈ c.names) :
    name ∈ Call.names ⟨func, args⟩ := by
  rw [Call.names, argumentNames_eq_flatMap]
  refine List.mem_cons_of_mem _ (List.mem_flatMap.mpr ⟨.call c, h, ?_⟩)
  rwa [Argument.names]

/-- A call that applies `is` and `or` only is compiled to alternatives. -/
theorem Call.isAlternatives_of_compile {c : Call} {e : Expr} (h : c.compile .default = .ok e)
    (hnames : ∀ name ∈ c.names, name = "is" ∨ name = "or") : e.IsAlternatives := by
  revert hnames
  refine Call.compile_induction Registry.default_speaks
    (motive := fun c e => (∀ name ∈ c.names, name = "is" ∨ name = "or") → e.IsAlternatives)
    ?is ?and ?or c e h
  case is =>
    intro _ l r _ _
    exact .equal l.isLeaf_toExpr r.isLeaf_toExpr
  case and =>
    intro func members hfunc _ hnames
    have hand : func = "and" := Builtin.eq_name_of_ofName? hfunc
    obtain hname | hname := hnames func (by simp [Call.names])
    · simp [hand] at hname
    · simp [hand] at hname
  case or =>
    intro func members _ ih hnames
    refine Builtin.joined_induction .none (fun _ _ => .or) (List.forall_mem_map.mpr ?_)
    intro m hm
    refine ih m hm fun name hname => hnames name ?_
    exact Call.mem_names_of_mem (List.mem_map.mpr ⟨m, hm, rfl⟩) hname

end FormRules
