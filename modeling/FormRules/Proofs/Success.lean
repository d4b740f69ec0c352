-- SUMMARY: When a computation that may fail succeeds, step by step.

/-!
# Success of computations that may fail

A sequence of steps succeeds when each of them does. The lemmas say so for the two ways in which
steps are joined here, in the form in which a hypothesis about success is taken apart.
-/

namespace FormRules

variable {ε α β : Type}

@[simp] theorem ok_bind (a : α) (f : α → Except ε β) : (Except.ok a >>= f) = f a := rfl

@[simp] theorem error_bind (e : ε) (f : α → Except ε β) : (Except.error e >>= f) = .error e := rfl

@[simp] theorem pure_eq_ok (a : α) : (pure a : Except ε α) = .ok a := rfl

@[simp] theorem map_ok (f : α → β) (a : α) : (Except.ok a : Except ε α).map f = .ok (f a) := rfl

@[simp] theorem map_error (f : α → β) (e : ε) :
    (Except.error e : Except ε α).map f = .error e := rfl

@[simp] theorem mapError_ok {ε' : Type} (f : ε → ε') (a : α) :
    (Except.ok a : Except ε α).mapError f = .ok a := rfl

@[simp] theorem mapError_error {ε' : Type} (f : ε → ε') (e : ε) :
    (Except.error e : Except ε α).mapError f = .error (f e) := rfl

theorem bind_eq_ok {x : Except ε α} {f : α → Except ε β} {b : β} :
    (x >>= f) = .ok b ↔ ∃ a, x = .ok a ∧ f a = .ok b := by
  cases x with
  | error e => simp
  | ok a => simp

theorem map_eq_ok {x : Except ε α} {f : α → β} {b : β} :
    x.map f = .ok b ↔ ∃ a, x = .ok a ∧ f a = b := by
  cases x with
  | error e => simp
  | ok a => simp

theorem mapError_eq_ok {ε' : Type} {x : Except ε α} {f : ε → ε'} {a : α} :
    x.mapError f = .ok a ↔ x = .ok a := by
  cases x with
  | error e => simp
  | ok a' => simp

/-- If a computation cannot succeed without another one, it fails where the other one does. -/
theorem exists_error_of_error {ε' : Type} {x : Except ε α} {y : Except ε' β} {e : ε'}
    (h : ∀ a, x = .ok a → ∃ b, y = .ok b) (hy : y = .error e) : ∃ e', x = .error e' := by
  cases hx : x with
  | error e' => exact ⟨e', rfl⟩
  | ok a =>
    obtain ⟨b, hb⟩ := h a hx
    cases hy.symm.trans hb

end FormRules
