-- SUMMARY: Compilation reports the first defect of a call, and succeeds if there is none.
import FormRules.Proofs.Condition.Defects
import Mathlib.Data.List.Forall2

/-!
# The first defect

Compilation looks at the name of a call, then at its arguments from left to right, and then lets the
parser of the name see whether they go with it. The parser knows of each argument only whether it was
a call (`ParsedArgument.SameKind`), which is enough to find the defect that the source has
(`Builtin.parser_checks`). So compilation reports the defect that comes first, at any depth
(`Call.checks_compile`), and yields an expression exactly for the well-formed calls
(`Call.compile_succeeds_iff`).
-/

namespace FormRules

/-! ## What the parsers check -/

namespace ParsedArgument

/-- An argument and its compiled form are both conditions or both operands. -/
inductive SameKind : Argument → ParsedArgument → Prop where
  | call {c : Call} {e : Expr} : SameKind (.call c) (.condition e)
  | operand {o : Operand} {e : Expr} : SameKind (.operand o) (.operand e)

end ParsedArgument

open ParsedArgument (SameKind)

theorem sameKind_compileArguments {registry : Registry} {args : List Argument}
    {parsed : List ParsedArgument} (h : compileArguments registry args = .ok parsed) :
    List.Forall₂ SameKind args parsed := by
  induction parsed generalizing args with
  | nil =>
    obtain rfl := compileArguments_eq_nil.mp h
    exact .nil
  | cons p ps ih =>
    obtain ⟨a, rest, rfl, ha, hrest⟩ := compileArguments_eq_cons.mp h
    apply List.Forall₂.cons _ (ih hrest)
    cases p with
    | condition e =>
      obtain ⟨c, rfl, _⟩ := Argument.compile_eq_condition.mp ha
      exact .call
    | operand e =>
      obtain ⟨o, rfl, _⟩ := Argument.compile_eq_operand.mp ha
      exact .operand

namespace Builtin

variable {args : List Argument} {parsed : List ParsedArgument}

/-- Arguments that are all calls are conditions. -/
theorem exists_conditions (h : List.Forall₂ SameKind args parsed)
    (hcalls : ∀ a ∈ args, ∃ inner, a = .call inner) (func : String) (index : Nat) :
    ∃ es, conditions func index parsed = .ok es := by
  induction h generalizing index with
  | nil => exact ⟨[], rfl⟩
  | cons hkind _ ih =>
    obtain ⟨⟨inner, rfl⟩, hrest⟩ := List.forall_mem_cons.mp hcalls
    cases hkind with
    | @call _ e =>
      obtain ⟨es, hes⟩ := ih hrest (index + 1)
      exact ⟨e :: es, by simp [conditions, hes]⟩

/-- Where conditions are wanted, the first operand is reported. -/
theorem conditions_eq_error (h : List.Forall₂ SameKind args parsed) {i : Nat}
    (hoperand : args.findIdx? Argument.isOperand = some i) (func : String) (index : Nat) :
    conditions func index parsed = .error (.expectedFunction func (index + i)) := by
  induction h generalizing index i with
  | nil => simp at hoperand
  | @cons a p rest ps hkind _ ih =>
    cases hkind with
    | operand =>
      obtain rfl : 0 = i := by simpa [List.findIdx?_cons, Argument.isOperand] using hoperand
      rfl
    | call =>
      obtain ⟨j, hj, rfl⟩ : ∃ j, rest.findIdx? Argument.isOperand = some j ∧ j + 1 = i := by
        simpa [List.findIdx?_cons, Argument.isOperand] using hoperand
      rw [conditions, ih hj, map_error, Nat.add_right_comm, Nat.add_assoc]

theorem exists_operands {l r : Operand}
    (h : List.Forall₂ SameKind [.operand l, .operand r] parsed) :
    ∃ el er, parsed = [.operand el, .operand er] := by
  cases h with
  | cons hl hrest =>
    cases hrest with
    | cons hr hnil =>
      cases hl
      cases hr
      cases hnil
      exact ⟨_, _, rfl⟩

theorem operandPair_eq_error_of_length (h : List.Forall₂ SameKind args parsed)
    (hnumber : args.length ≠ 2) (func : String) :
    operandPair func parsed = .error (.arityMismatch func 2 args.length) := by
  rw [h.length_eq] at hnumber ⊢
  match parsed with
  | [] => rfl
  | [_] => rfl
  | [_, _] => simp at hnumber
  | _ :: _ :: _ :: _ => rfl

/-- Where two operands are wanted, the first call is reported. -/
theorem operandPair_eq_error_of_call (h : List.Forall₂ SameKind args parsed)
    (htwo : args.length = 2) {i : Nat} (hcall : args.findIdx? Argument.isCall = some i)
    (func : String) : operandPair func parsed = .error (.expectedOperand func i) := by
  obtain ⟨a, b, rfl⟩ := List.length_eq_two.mp htwo
  cases h with
  | cons ha hrest =>
    cases hrest with
    | cons hb hnil =>
      cases hnil
      cases ha with
      | call =>
        obtain rfl : 0 = i := by simpa [List.findIdx?_cons, Argument.isCall] using hcall
        rfl
      | operand =>
        cases hb with
        | operand => simp [List.findIdx?_cons, Argument.isCall] at hcall
        | call =>
          obtain rfl : 1 = i := by simpa [List.findIdx?_cons, Argument.isCall] using hcall
          rfl

/-- The parser of a built-in function accepts the arguments that go with its name. -/
theorem exists_parser_eq_ok {c : Call} {b : Builtin} (hfunc : c.func = b.name)
    (h : List.Forall₂ SameKind c.args parsed) (hshape : c.HasShape) :
    ∃ e, b.parser parsed = .ok e := by
  cases hshape with
  | is l r his hargs =>
    obtain rfl : b = .is := name_injective (hfunc.symm.trans his)
    obtain ⟨l, r, rfl⟩ := exists_operands (hargs ▸ h)
    exact ⟨.equal l r, rfl⟩
  | join hjoin hcalls =>
    rcases hjoin with hand | hor
    · obtain rfl : b = .and := name_injective (hfunc.symm.trans hand)
      obtain ⟨es, hes⟩ := exists_conditions h hcalls "and" 0
      exact ⟨joined .and true es, by simp [parser, hes]⟩
    · obtain rfl : b = .or := name_injective (hfunc.symm.trans hor)
      obtain ⟨es, hes⟩ := exists_conditions h hcalls "or" 0
      exact ⟨joined .or false es, by simp [parser, hes]⟩

/-- Otherwise it reports what is wrong with them. -/
theorem parser_eq_error {c : Call} {b : Builtin} (hfunc : c.func = b.name)
    (h : List.Forall₂ SameKind c.args parsed) {e : CompileError} (hdefect : c.ArgumentDefect e) :
    b.parser parsed = .error e := by
  cases hdefect with
  | number his hnumber =>
    obtain rfl : b = .is := name_injective (hfunc.symm.trans his)
    rw [parser, operandPair_eq_error_of_length h hnumber, map_error]
  | call his htwo hcall =>
    obtain rfl : b = .is := name_injective (hfunc.symm.trans his)
    rw [parser, operandPair_eq_error_of_call h htwo hcall, map_error]
  | operand hjoin hoperand =>
    rcases hjoin with hand | hor
    · obtain rfl : b = .and := name_injective (hfunc.symm.trans hand)
      rw [parser, conditions_eq_error h hoperand, map_error, Nat.zero_add, hand]
    · obtain rfl : b = .or := name_injective (hfunc.symm.trans hor)
      rw [parser, conditions_eq_error h hoperand, map_error, Nat.zero_add, hor]

/-- A parser checks whether the arguments of a call go with its name. -/
theorem parser_checks {c : Call} {b : Builtin} (hfunc : c.func = b.name)
    (h : List.Forall₂ SameKind c.args parsed) :
    Checks (fun place e => place = [c.args.length] ∧ c.ArgumentDefect e) (b.parser parsed) := by
  rcases Call.hasShape_or_argumentDefect (hfunc ▸ b.name_mem_names) with hshape | ⟨e, hdefect⟩
  · obtain ⟨x, hx⟩ := exists_parser_eq_ok hfunc h hshape
    rw [hx]
    exact .ok fun place e hdefect => hshape.not_argumentDefect e hdefect.2
  · rw [parser_eq_error hfunc h hdefect]
    exact .error ⟨⟨rfl, hdefect⟩, fun place e' h' => .inl ⟨h'.1, hdefect.unique h'.2⟩⟩

end Builtin

/-! ## Compilation -/

/-- The defects of the calls among some arguments, the first of which has the given index. -/
def argumentDefects (index : Nat) (args : List Argument) : Defects := fun place e =>
  ∃ i inner rest, args[i]? = some (.call inner) ∧ place = (index + i) :: rest ∧ inner.Defect rest e

/-- An argument has the defects of the call that it is. -/
def Argument.defects : Argument → Defects
  | .call c => c.Defect
  | .operand _ => fun _ _ => False

theorem argumentDefects_cons {index : Nat} {a : Argument} {rest : List Argument}
    {place : List Nat} {e : CompileError} :
    argumentDefects index (a :: rest) place e ↔
      (∃ below, place = index :: below ∧ a.defects below e)
        ∨ argumentDefects (index + 1) rest place e := by
  constructor
  · rintro ⟨i, inner, below, hi, rfl, hdefect⟩
    cases i with
    | zero =>
      obtain rfl : a = .call inner := by simpa using hi
      exact .inl ⟨below, rfl, hdefect⟩
    | succ i => exact .inr ⟨i, inner, below, by simpa using hi, by simp; omega, hdefect⟩
  · rintro (⟨below, rfl, hdefect⟩ | ⟨i, inner, below, hi, rfl, hdefect⟩)
    · cases a with
      | call inner => exact ⟨0, inner, below, rfl, rfl, hdefect⟩
      | operand o => exact hdefect.elim
    · exact ⟨i + 1, inner, below, by simpa using hi, by simp; omega, hdefect⟩

theorem Argument.compile_call (registry : Registry) (c : Call) :
    (Argument.call c).compile registry = (c.compile registry).map ParsedArgument.condition := by
  rw [Argument.compile]
  cases c.compile registry <;> rfl

theorem compileArguments_cons (registry : Registry) (a : Argument) (rest : List Argument) :
    compileArguments registry (a :: rest)
      = a.compile registry >>= fun p => (compileArguments registry rest).map (p :: ·) := by
  rw [compileArguments]
  cases a.compile registry with
  | error e => rfl
  | ok p => cases compileArguments registry rest <;> rfl

/-- Arguments are checked from left to right. -/
theorem checks_compileArguments {args : List Argument}
    (h : ∀ c, .call c ∈ args → Checks c.Defect (c.compile .default)) (index : Nat) :
    Checks (argumentDefects index args) (compileArguments .default args) := by
  induction args generalizing index with
  | nil =>
    apply Checks.ok
    rintro place e ⟨i, inner, below, hi, -⟩
    simp at hi
  | cons a rest ih =>
    have hhead : Checks a.defects (a.compile .default) := by
      cases a with
      | call c =>
        rw [Argument.compile_call]
        exact (h c List.mem_cons_self).map _
      | operand o => exact .ok fun _ _ => id
    have hrest := ih (fun c hc => h c (List.mem_cons_of_mem a hc)) (index + 1)
    rw [compileArguments_cons]
    apply Checks.congr _ fun place e => argumentDefects_cons.symm
    apply (hhead.below index).bind fun p _ => hrest.map _
    rintro _ e _ e' ⟨below, rfl, -⟩ ⟨i, inner, below', -, rfl, -⟩
    exact List.cons_lt_cons_iff.mpr (.inl (by omega))

namespace Call

variable {c : Call}

/-- An unknown name comes before all other defects. -/
theorem first_defect_of_unknown (h : c.func ∉ Builtin.names) :
    c.Defect.First [] (.unknownFunction c.func) := by
  refine ⟨.name h, fun place e hdefect => ?_⟩
  cases hdefect with
  | name => exact .inl ⟨rfl, rfl⟩
  | inner => exact .inr (List.nil_lt_cons _ _)
  | arguments => exact .inr (List.nil_lt_cons _ _)

/-- The defects of a call with a known name are those of its arguments and those in how they go with
the name. -/
theorem defect_iff_of_known (h : c.func ∈ Builtin.names) (place : List Nat) (e : CompileError) :
    argumentDefects 0 c.args place e ∨ (place = [c.args.length] ∧ c.ArgumentDefect e)
      ↔ c.Defect place e := by
  constructor
  · rintro (⟨i, inner, below, hi, rfl, hdefect⟩ | ⟨rfl, hdefect⟩)
    · rw [Nat.zero_add]
      exact .inner hi hdefect
    · exact .arguments hdefect
  · intro hdefect
    cases hdefect with
    | name hname => exact absurd h hname
    | @inner _ inner i below _ hi hdefect =>
      exact .inl ⟨i, inner, below, hi, by rw [Nat.zero_add], hdefect⟩
    | arguments hdefect => exact .inr ⟨rfl, hdefect⟩

theorem compile_of_unknown (h : c.func ∉ Builtin.names) :
    c.compile .default = .error (.unknownFunction c.func) := by
  obtain ⟨func, args⟩ := c
  simp [Call.compile, Registry.default_speaks func, Builtin.ofName?_eq_none_iff.mpr h]

theorem compile_of_builtin {b : Builtin} (h : c.func = b.name) :
    c.compile .default = compileArguments .default c.args >>= b.parser := by
  obtain ⟨func, args⟩ := c
  obtain rfl : func = b.name := h
  simp only [Call.compile, Registry.default_speaks b.name, Builtin.ofName?_name, Option.map_some]
  cases compileArguments .default args <;> rfl

/-- Compilation reports the first defect of a call. -/
theorem checks_compile (c : Call) : Checks c.Defect (c.compile .default) := by
  have ih : ∀ inner, .call inner ∈ c.args → Checks inner.Defect (inner.compile .default) :=
    fun inner hmem =>
      have hlt : sizeOf inner < sizeOf c := sizeOf_lt_of_mem hmem
      checks_compile inner
  cases hb : Builtin.ofName? c.func with
  | none =>
    have hunknown : c.func ∉ Builtin.names := Builtin.ofName?_eq_none_iff.mp hb
    rw [compile_of_unknown hunknown]
    exact .error (first_defect_of_unknown hunknown)
  | some b =>
    have hfunc : c.func = b.name := Builtin.eq_name_of_ofName? hb
    have hknown : c.func ∈ Builtin.names := hfunc ▸ b.name_mem_names
    rw [compile_of_builtin hfunc]
    apply ((checks_compileArguments ih 0).bind _ _).congr (defect_iff_of_known hknown)
    · intro parsed hparsed
      exact Builtin.parser_checks hfunc (sameKind_compileArguments hparsed)
    · -- every argument stands before the place behind the last of them
      rintro place e _ e' ⟨i, inner, below, hi, rfl, -⟩ ⟨rfl, -⟩
      have hlt : i < c.args.length := (List.getElem?_eq_some_iff.mp hi).1
      exact List.cons_lt_cons_iff.mpr (.inl (by omega))
termination_by sizeOf c
decreasing_by exact hlt

/-- A call is compiled exactly if it is well formed. -/
theorem compile_succeeds_iff (c : Call) :
    (∃ e, c.compile .default = .ok e) ↔ c.IsWellFormed := by
  rw [c.checks_compile.succeeds_iff, not_defect_iff]

/-- An unknown name inside an argument comes before a wrong number of arguments, and both come before
an argument of the wrong kind around them. -/
example :
    let unknown : Call := ⟨"is", [.call ⟨"xor", []⟩]⟩
    let lone : Call := ⟨"is", [.operand (.ofField "status")]⟩
    Call.compile .default ⟨"and", [.operand {}, .call unknown]⟩ = .error (.unknownFunction "xor")
    ∧ Call.compile .default ⟨"and", [.operand {}, .call lone]⟩ = .error (.arityMismatch "is" 2 1) :=
  ⟨rfl, rfl⟩

end Call

end FormRules
