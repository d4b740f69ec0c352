-- SUMMARY: A stretch of characters of one kind ends at the first character of another kind.
import Mathlib.Data.List.TakeWhile

/-!
# Stretches of characters

A text that begins with a stretch of characters of one kind, and goes on with none of that kind, can
be divided there in one way only.
-/

namespace FormRules

variable {p : Char → Bool} {xs ys cs ds : List Char}

/-- A stretch of characters ends at the first one of another kind. -/
theorem span_append (hx : ∀ c ∈ xs, p c = true) (hcs : ∀ c ∈ cs.head?, p c = false) :
    (xs ++ cs).takeWhile p = xs ∧ (xs ++ cs).dropWhile p = cs := by
  rw [List.takeWhile_append_of_pos hx, List.dropWhile_append_of_pos hx]
  cases cs with
  | nil => simp
  | cons c cs => simp [hcs c rfl]

/-- Stretches that begin one text are equal, and so is what follows them. -/
theorem stretch_unique (hx : ∀ c ∈ xs, p c = true) (hcs : ∀ c ∈ cs.head?, p c = false)
    (hy : ∀ c ∈ ys, p c = true) (hds : ∀ c ∈ ds.head?, p c = false) (h : xs ++ cs = ys ++ ds) :
    xs = ys ∧ cs = ds := by
  obtain ⟨htake, hdrop⟩ := span_append hx hcs
  obtain ⟨htake', hdrop'⟩ := span_append hy hds
  rw [h] at htake hdrop
  exact ⟨htake.symm.trans htake', hdrop.symm.trans hdrop'⟩

end FormRules
