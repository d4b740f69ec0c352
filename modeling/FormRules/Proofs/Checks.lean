-- SUMMARY: Computations that report the first of several defects.
import FormRules.Condition.Compilation

/-!
# Checks

What is checked may have several defects, each at a place of its own. `Checks defects c` says of a
computation `c` that it reports the first of them, and that it yields something if there are none.
Places are lists of indices and are compared from the left. Such a fact is built up along the
computation, by one rule for each way in which checks are joined.
-/

namespace FormRules

/-! ## The first of some defects -/

/-- Which errors there are to report, each at its place. -/
abbrev Defects := List Nat → CompileError → Prop

/-- A defect comes before all others. -/
structure Defects.First (defects : Defects) (place : List Nat) (e : CompileError) : Prop where
  present : defects place e
  least : ∀ place' e', defects place' e' → place' = place ∧ e' = e ∨ place < place'

/-- A result is something if there are no defects, and otherwise the error of the first. -/
inductive Checks {α : Type} (defects : Defects) : Except CompileError α → Prop where
  | ok {x : α} : (∀ place e, ¬ defects place e) → Checks defects (.ok x)
  | error {place : List Nat} {e : CompileError} : defects.First place e → Checks defects (.error e)

namespace Checks

variable {α β : Type} {defects others : Defects} {c : Except CompileError α}

theorem succeeds_iff (h : Checks defects c) : (∃ x, c = .ok x) ↔ ∀ place e, ¬ defects place e := by
  cases h with
  | ok hnone => simp [hnone]
  | error hfirst =>
    constructor
    · rintro ⟨x, hx⟩
      cases hx
    · intro hnone
      exact absurd hfirst.present (hnone _ _)

theorem fails_iff (h : Checks defects c) {e : CompileError} :
    c = .error e ↔ ∃ place, defects.First place e := by
  cases h with
  | ok hnone =>
    constructor
    · intro hc
      cases hc
    · rintro ⟨place, hfirst⟩
      exact absurd hfirst.present (hnone _ _)
  | @error place e' hfirst =>
    constructor
    · rintro ⟨⟩
      exact ⟨place, hfirst⟩
    · rintro ⟨place', hfirst'⟩
      obtain ⟨_, rfl⟩ | hlt := hfirst.least _ _ hfirst'.present
      · rfl
      · obtain ⟨rfl, rfl⟩ | hgt := hfirst'.least _ _ hfirst.present
        · rfl
        · exact absurd hgt (List.lt_asymm hlt)

/-! ## Rules -/

theorem congr (h : Checks defects c) (heq : ∀ place e, defects place e ↔ others place e) :
    Checks others c := by
  obtain rfl : defects = others := funext fun place => funext fun e => propext (heq place e)
  exact h

theorem map (h : Checks defects c) (f : α → β) : Checks defects (c.map f) := by
  cases h with
  | ok hnone => exact .ok hnone
  | error hfirst => exact .error hfirst

/-- What stands at an index has its defects below that index. -/
theorem below (h : Checks defects c) (index : Nat) :
    Checks (fun place e => ∃ rest, place = index :: rest ∧ defects rest e) c := by
  cases h with
  | ok hnone =>
    apply Checks.ok
    rintro _ e ⟨rest, rfl, hdefect⟩
    exact hnone rest e hdefect
  | @error place e hfirst =>
    refine .error (⟨⟨place, rfl, hfirst.present⟩, ?_⟩ : Defects.First _ (index :: place) e)
    rintro _ e' ⟨rest, rfl, hdefect⟩
    obtain ⟨rfl, rfl⟩ | hlt := hfirst.least rest e' hdefect
    · exact .inl ⟨rfl, rfl⟩
    · exact .inr (List.cons_lt_cons_iff.mpr (.inr ⟨rfl, hlt⟩))

/-- Two checks one after the other, if the defects of the first all come before those of the
second. -/
theorem bind {k : α → Except CompileError β} (h : Checks defects c)
    (hk : ∀ x, c = .ok x → Checks others (k x))
    (hbefore : ∀ place e place' e', defects place e → others place' e' → place < place') :
    Checks (fun place e => defects place e ∨ others place e) (c >>= k) := by
  cases h with
  | @ok x hnone =>
    apply (hk x rfl).congr
    intro place e
    exact ⟨.inr, fun h => h.resolve_left (hnone place e)⟩
  | @error place e hfirst =>
    refine .error (⟨.inl hfirst.present, ?_⟩ : Defects.First _ place e)
    rintro place' e' (hdefect | hdefect)
    · exact hfirst.least place' e' hdefect
    · exact .inr (hbefore place e place' e' hfirst.present hdefect)

end Checks

end FormRules
