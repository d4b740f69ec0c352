-- SUMMARY: Well-formed calls, and the defects of all others.
import FormRules.Proofs.Checks
import FormRules.Proofs.Condition.Vocabulary
import Mathlib.Data.List.Basic

/-!
# Defects of conditions

A call is well formed when each call that occurs in it has a known name and the arguments that go
with it (`Call.HasShape`). Any other call has defects. `Call.Defect` finds all of them, each with its
place: a list of indices that leads down through the arguments to a call, and for a defect in the
arguments of that call one more number, which points behind the last of them. Places are compared
from the left, so a name comes before everything inside its call, arguments come from left to right,
and whether they go with the name comes last.
-/

namespace FormRules

/-! ## Well-formed calls -/

namespace Argument

def isCall : Argument → Bool
  | call _ => true
  | operand _ => false

def isOperand : Argument → Bool
  | call _ => false
  | operand _ => true

end Argument

namespace Call

/-- A call occurs in another one: it is this one, or it occurs in an argument of it. -/
inductive OccursIn (c : Call) : Call → Prop where
  | here : OccursIn c c
  | argument {whole inner : Call} : .call inner ∈ whole.args → OccursIn c inner → OccursIn c whole

/-- The arguments of a call go with its name: two operands with `is`, only calls with `and` and
`or`. There are no other names. -/
inductive HasShape (c : Call) : Prop where
  | is (l r : Operand) : c.func = "is" → c.args = [.operand l, .operand r] → HasShape c
  | join : c.func = "and" ∨ c.func = "or" → (∀ a ∈ c.args, ∃ inner, a = .call inner) → HasShape c

/-- A call is well formed: it has the right shape, and so have all that occur in it. -/
def IsWellFormed (c : Call) : Prop := ∀ inner : Call, inner.OccursIn c → inner.HasShape

/-- The arguments of a call with a known name do not go with it. The number of operands is looked at
before their kind, and of several arguments of the wrong kind the first counts. -/
inductive ArgumentDefect (c : Call) : CompileError → Prop where
  | number : c.func = "is" → c.args.length ≠ 2 →
    ArgumentDefect c (.arityMismatch "is" 2 c.args.length)
  | call {i : Nat} : c.func = "is" → c.args.length = 2 → c.args.findIdx? Argument.isCall = some i →
    ArgumentDefect c (.expectedOperand "is" i)
  | operand {i : Nat} : c.func = "and" ∨ c.func = "or" →
    c.args.findIdx? Argument.isOperand = some i → ArgumentDefect c (.expectedFunction c.func i)

/-- The defects of a call and of all calls that occur in it, each at its place. -/
inductive Defect : Call → Defects where
  | name {c : Call} : c.func ∉ Builtin.names → Defect c [] (.unknownFunction c.func)
  | inner {c inner : Call} {i : Nat} {place : List Nat} {e : CompileError} :
    c.args[i]? = some (.call inner) → Defect inner place e → Defect c (i :: place) e
  | arguments {c : Call} {e : CompileError} : c.ArgumentDefect e → Defect c [c.args.length] e

/-! ## Shapes -/

variable {c : Call}

theorem HasShape.func_mem_names (h : c.HasShape) : c.func ∈ Builtin.names := by
  cases h with
  | is l r hfunc _ => simp [hfunc, Builtin.names]
  | join hfunc _ =>
    rcases hfunc with hfunc | hfunc <;> simp [hfunc, Builtin.names]

theorem HasShape.not_argumentDefect (h : c.HasShape) (e : CompileError) : ¬ c.ArgumentDefect e := by
  intro hdefect
  cases h with
  | is l r hfunc hargs =>
    cases hdefect with
    | number _ hnumber => simp [hargs] at hnumber
    | call _ _ hcall => simp [hargs, List.findIdx?_cons, Argument.isCall] at hcall
    | operand hjoin _ => simp [hfunc] at hjoin
  | join hfunc hcalls =>
    cases hdefect with
    | number his _ => simp [his] at hfunc
    | call his _ _ => simp [his] at hfunc
    | operand _ hoperand =>
      obtain ⟨hlt, hoperand, _⟩ := List.findIdx?_eq_some_iff_getElem.mp hoperand
      obtain ⟨inner, hinner⟩ := hcalls _ (List.getElem_mem hlt)
      simp [hinner, Argument.isOperand] at hoperand

/-- A call with a known name has the right shape, or else there is a defect in its arguments. -/
theorem hasShape_or_argumentDefect (h : c.func ∈ Builtin.names) :
    c.HasShape ∨ ∃ e, c.ArgumentDefect e := by
  have hfunc : c.func = "is" ∨ c.func = "and" ∨ c.func = "or" := by simpa [Builtin.names] using h
  rcases hfunc with his | hjoin
  · by_cases hnumber : c.args.length = 2
    · obtain ⟨a, b, hargs⟩ := List.length_eq_two.mp hnumber
      cases hcall : c.args.findIdx? Argument.isCall with
      | some i => exact .inr ⟨_, .call his hnumber hcall⟩
      | none =>
        cases a <;> cases b <;> simp [hargs, List.findIdx?_cons, Argument.isCall] at hcall
        exact .inl (.is _ _ his hargs)
    · exact .inr ⟨_, .number his hnumber⟩
  · cases hoperand : c.args.findIdx? Argument.isOperand with
    | some i => exact .inr ⟨_, .operand hjoin hoperand⟩
    | none =>
      refine .inl (.join hjoin fun a ha => ?_)
      cases a with
      | call inner => exact ⟨inner, rfl⟩
      | operand o =>
        have hkind := List.findIdx?_eq_none_iff.mp hoperand _ ha
        simp [Argument.isOperand] at hkind

theorem ArgumentDefect.unique {e e' : CompileError} (h : c.ArgumentDefect e)
    (h' : c.ArgumentDefect e') : e' = e := by
  cases h with
  | number his hnumber =>
    cases h' with
    | number => rfl
    | call _ htwo _ => exact absurd htwo hnumber
    | operand hjoin _ => simp [his] at hjoin
  | call his htwo hcall =>
    cases h' with
    | number _ hnumber => exact absurd htwo hnumber
    | call _ _ hcall' => cases hcall.symm.trans hcall'; rfl
    | operand hjoin _ => simp [his] at hjoin
  | operand hjoin hoperand =>
    cases h' with
    | number his _ => simp [his] at hjoin
    | call his _ _ => simp [his] at hjoin
    | operand _ hoperand' => cases hoperand.symm.trans hoperand'; rfl

/-- The calls without defects are the well-formed ones. -/
theorem not_defect_iff : (∀ place e, ¬ c.Defect place e) ↔ c.IsWellFormed := by
  constructor
  · intro hnone inner hinner
    induction hinner with
    | here =>
      have hname : inner.func ∈ Builtin.names := by
        by_contra hname
        exact hnone _ _ (.name hname)
      apply (hasShape_or_argumentDefect hname).resolve_right
      rintro ⟨e, hdefect⟩
      exact hnone _ e (.arguments hdefect)
    | argument hmem _ ih =>
      obtain ⟨i, hi⟩ := List.mem_iff_getElem?.mp hmem
      apply ih
      intro place e hdefect
      exact hnone _ e (.inner hi hdefect)
  · intro hwell place e hdefect
    induction hdefect with
    | name hname => exact hname (hwell _ .here).func_mem_names
    | inner hi _ ih =>
      apply ih
      intro part hpart
      exact hwell part (.argument (List.mem_of_getElem? hi) hpart)
    | arguments hdefect => exact (hwell _ .here).not_argumentDefect _ hdefect

end Call

end FormRules
