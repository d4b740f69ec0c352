-- SUMMARY: Names that are listed once each, in the order in which they come up first.
import FormRules.Layout.Basic

/-!
# First declarations

Several fields may declare one name. `firstOccurrences` lists each name once and leaves none out
(`mem_firstOccurrences`), in the order of the fields that have the names first
(`pairwise_firstOccurrences`).
-/

namespace FormRules

theorem mem_firstOccurrences {seen names : List String} {name : String} :
    name ∈ firstOccurrences seen names ↔ name ∈ names ∧ name ∉ seen := by
  induction names generalizing seen with
  | nil => simp [firstOccurrences]
  | cons first rest ih =>
    by_cases hseen : first ∈ seen
    · rw [firstOccurrences, if_pos hseen, ih]
      grind
    · rw [firstOccurrences, if_neg hseen, List.mem_cons, ih]
      grind

/-- What is listed was not seen before. -/
theorem ne_of_mem_firstOccurrences {seen names : List String} {first name : String}
    (hfirst : first ∈ seen) (hname : name ∈ firstOccurrences seen names) : first ≠ name := by
  rintro rfl
  exact (mem_firstOccurrences.mp hname).2 hfirst

variable {α : Type} (key : α → Option String)

/-- The place of the first element that has a name. -/
def firstPlace (xs : List α) (name : String) : Nat := xs.findIdx fun x => key x = some name

theorem firstPlace_cons_self {x : α} {name : String} (h : key x = some name) (rest : List α) :
    firstPlace key (x :: rest) name = 0 := by
  simp [firstPlace, List.findIdx_cons, h]

theorem firstPlace_cons_of_ne {x : α} {name : String} (h : key x ≠ some name) (rest : List α) :
    firstPlace key (x :: rest) name = firstPlace key rest name + 1 := by
  simp [firstPlace, List.findIdx_cons, h]

/-- The names that elements of a list have come in the order of their first places. -/
theorem pairwise_firstOccurrences (seen : List String) (xs : List α) :
    (firstOccurrences seen (xs.filterMap key)).Pairwise fun name other =>
      firstPlace key xs name < firstPlace key xs other := by
  induction xs generalizing seen with
  | nil => exact .nil
  | cons x rest ih =>
    -- names that `x` does not have keep their order when `x` is put in front
    have hlater : ∀ seen', (∀ name ∈ firstOccurrences seen' (rest.filterMap key),
        key x ≠ some name) →
        (firstOccurrences seen' (rest.filterMap key)).Pairwise fun name other =>
          firstPlace key (x :: rest) name < firstPlace key (x :: rest) other := by
      intro seen' hne
      apply (ih seen').imp_of_mem
      intro name other hname hother hlt
      rw [firstPlace_cons_of_ne key (hne name hname), firstPlace_cons_of_ne key (hne other hother)]
      exact Nat.succ_lt_succ hlt
    cases hx : key x with
    | none =>
      rw [List.filterMap_cons_none hx]
      exact hlater seen (by simp [hx])
    | some first =>
      rw [List.filterMap_cons_some hx, firstOccurrences]
      have hne : ∀ seen', first ∈ seen' →
          ∀ name ∈ firstOccurrences seen' (rest.filterMap key), key x ≠ some name := by
        intro seen' hfirst name hname
        simpa [hx] using ne_of_mem_firstOccurrences hfirst hname
      split
      · exact hlater seen (hne seen ‹_›)
      · have hfirst : first ∈ first :: seen := List.mem_cons_self
        refine .cons (fun name hname => ?_) (hlater _ (hne _ hfirst))
        rw [firstPlace_cons_self key hx, firstPlace_cons_of_ne key (hne _ hfirst name hname)]
        exact Nat.succ_pos _

end FormRules
