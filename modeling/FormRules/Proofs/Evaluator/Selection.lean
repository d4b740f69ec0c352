-- SUMMARY: What an update can do to the rules that are not evaluated again after it.
import FormRules.Proofs.Evaluator.Verdict

/-!
# Selection of rules

After an update only the rules that it touches are evaluated. A conjunction counts as touched when
both of its sides are, so that a rule may be left out although its verdict has changed. This is the
only way in which that happens: some conjunction of the rule has overlooked a change of one side
while its other side, not touched itself, held all along (`Expr.IsCondition.holds_congr`).
-/

namespace FormRules

namespace Expr

/-! ## Overlooked changes -/

/-- An expression stands somewhere in another one. -/
inductive OccursIn (e : Expr) : Expr → Prop where
  | here : OccursIn e e
  | andLeft {l r : Expr} : OccursIn e l → OccursIn e (.and l r)
  | andRight {l r : Expr} : OccursIn e r → OccursIn e (.and l r)
  | orLeft {l r : Expr} : OccursIn e l → OccursIn e (.or l r)
  | orRight {l r : Expr} : OccursIn e r → OccursIn e (.or l r)
  | equalLeft {l r : Expr} : OccursIn e l → OccursIn e (.equal l r)
  | equalRight {l r : Expr} : OccursIn e r → OccursIn e (.equal l r)

/-- How a conjunction overlooks a change: the update touches one side, which changes, and does not
touch the other one, which holds before and after. -/
structure Overlooked (updated : List String) (before after : FormValues)
    (changed kept : Expr) : Prop where
  touched : changed.isTouchedBy updated = true
  changes : changed.holds before ≠ changed.holds after
  untouched : kept.isTouchedBy updated = false
  holdsBefore : kept.holds before = true
  holdsAfter : kept.holds after = true

/-- Some conjunction of an expression overlooks a change. -/
def OverlooksChange (updated : List String) (before after : FormValues) (e : Expr) : Prop :=
  ∃ l r, (Expr.and l r).OccursIn e
    ∧ (Overlooked updated before after l r ∨ Overlooked updated before after r l)

variable {updated : List String} {before after : FormValues}

theorem OverlooksChange.mono {e whole : Expr} (h : e.OverlooksChange updated before after)
    (hocc : ∀ part : Expr, part.OccursIn e → part.OccursIn whole) :
    whole.OverlooksChange updated before after := by
  obtain ⟨l, r, hin, hside⟩ := h
  exact ⟨l, r, hocc _ hin, hside⟩

/-! ## Expressions that an update does not touch -/

/-- A leaf that is no updated field keeps its value. -/
theorem IsLeaf.value_congr {e : Expr} (h : e.IsLeaf)
    (hagree : ∀ name, name ∉ updated → before.get? name = after.get? name)
    (hnot : e.isFieldAmong updated = false) : e.value before = e.value after := by
  cases h with
  | literal v => rfl
  | field apiName =>
    have hnotin : apiName ∉ updated := by simpa [isFieldAmong] using hnot
    simp [Expr.value, FormValues.valueOf, hagree apiName hnotin]

/-- What holds of a conjunction of which an update touches one side only: the other side decides,
and only while it holds can a change be overlooked. -/
theorem holds_and_of_touched_left {l r : Expr} (hl : l.isTouchedBy updated = true)
    (hr : r.isTouchedBy updated = false) (hkeep : r.holds before = r.holds after) :
    (l.holds before && r.holds before) = (l.holds after && r.holds after)
      ∨ Overlooked updated before after l r := by
  by_cases hchange : l.holds before = l.holds after
  · exact .inl (by rw [hchange, hkeep])
  · cases hb : r.holds before with
    | false => exact .inl (by simp [← hkeep, hb])
    | true => exact .inr ⟨hl, hchange, hr, hb, hkeep ▸ hb⟩

/-- A condition that an update does not touch keeps its truth value, unless one of its conjunctions
overlooks a change. -/
theorem IsCondition.holds_congr {e : Expr} (h : e.IsCondition)
    (hagree : ∀ name, name ∉ updated → before.get? name = after.get? name)
    (hskip : e.isTouchedBy updated = false) :
    e.holds before = e.holds after ∨ e.OverlooksChange updated before after := by
  induction h with
  | @equal l r hl hr =>
    obtain ⟨hnl, hnr⟩ : l.isFieldAmong updated = false ∧ r.isFieldAmong updated = false := by
      simpa [isTouchedBy] using hskip
    rw [holds_equal, holds_equal, hl.value_congr hagree hnl, hr.value_congr hagree hnr]
    exact .inl rfl
  | constant b => exact .inl (by simp)
  | @or l r _ _ ihl ihr =>
    obtain ⟨hsl, hsr⟩ : l.isTouchedBy updated = false ∧ r.isTouchedBy updated = false := by
      simpa [isTouchedBy] using hskip
    obtain hl | hl := ihl hsl
    · obtain hr | hr := ihr hsr
      · exact .inl (by rw [holds_or, holds_or, hl, hr])
      · exact .inr (hr.mono fun _ => .orRight)
    · exact .inr (hl.mono fun _ => .orLeft)
  | @and l r _ _ ihl ihr =>
    rw [holds_and, holds_and]
    -- at most one side is touched; the induction hypothesis is at hand for any other
    cases htl : l.isTouchedBy updated with
    | false =>
      obtain hl | hl := ihl htl
      · cases htr : r.isTouchedBy updated with
        | false =>
          obtain hr | hr := ihr htr
          · exact .inl (by rw [hl, hr])
          · exact .inr (hr.mono fun _ => .andRight)
        | true =>
          obtain hsame | hover := holds_and_of_touched_left htr htl hl
          · exact .inl (by rw [Bool.and_comm, hsame, Bool.and_comm])
          · exact .inr ⟨l, r, .here, .inr hover⟩
      · exact .inr (hl.mono fun _ => .andLeft)
    | true =>
      have htr : r.isTouchedBy updated = false := by simpa [isTouchedBy, htl] using hskip
      obtain hr | hr := ihr htr
      · obtain hsame | hover := holds_and_of_touched_left htl htr hr
        · exact .inl hsame
        · exact .inr ⟨l, r, .here, .inl hover⟩
      · exact .inr (hr.mono fun _ => .andRight)

end Expr

/-! ## Rules that are left out -/

/-- Let values change at most for updated fields. A rule that the update does not touch has the same
verdict before and after, unless a conjunction in its condition overlooks a change. -/
theorem skipped_rule_keeps_verdict {source : Rule} {index : Nat} {r : CompiledRule}
    (hcompile : source.compile .default index = .ok r) {updated : List String}
    {before after : FormValues}
    (hagree : ∀ name, name ∉ updated → before.get? name = after.get? name)
    (hskip : r.condition.isTouchedBy updated = false) :
    (∃ verdict, (r.evaluate before).map Outcome.verdict = .ok verdict
      ∧ (r.evaluate after).map Outcome.verdict = .ok verdict)
    ∨ r.condition.OverlooksChange updated before after := by
  obtain ⟨e, he, rfl⟩ := map_eq_ok.mp hcompile
  have hcond := Call.isCondition_of_compile Registry.default_speaks he
  refine (hcond.holds_congr hagree hskip).imp_left fun hsame => ?_
  refine ⟨_, CompiledRule.evaluate_verdict hcond before, ?_⟩
  rw [CompiledRule.evaluate_verdict hcond after]
  simp only [CompiledRule.verdict, hsame]

/-- An update of `b` is overlooked by no conjunction here, since `c` has another value. -/
theorem skipped_rule_keeps_verdict_unmet :
    let rule : Rule := { condition := .all [.is "b" "1", .is "c" "1"] }
    let before := Table.ofList [("c", "2")]
    let after := before.insert "b" "1"
    ∃ r, rule.compile .default 0 = .ok r
      ∧ (∀ name, name ∉ ["b"] → before.get? name = after.get? name)
      ∧ r.condition.isTouchedBy ["b"] = false
      ∧ ∃ verdict, (r.evaluate before).map Outcome.verdict = .ok verdict
        ∧ (r.evaluate after).map Outcome.verdict = .ok verdict := by
  intro rule before after
  obtain ⟨r, hr, hcond⟩ : ∃ r, rule.compile .default 0 = .ok r ∧ r.condition
      = .and (.equal (.field "b") (.literal (.text "1")))
        (.equal (.field "c") (.literal (.text "1"))) := ⟨_, rfl, rfl⟩
  have hagree : ∀ name, name ∉ ["b"] → before.get? name = after.get? name := fun name hname =>
    (before.get?_insert_of_ne (by simpa using hname) "1").symm
  have hskip : r.condition.isTouchedBy ["b"] = false := by rw [hcond]; rfl
  refine ⟨r, hr, hagree, hskip, ?_⟩
  obtain hkeep | ⟨_, _, hocc, hover⟩ := skipped_rule_keeps_verdict hr hagree hskip
  · exact hkeep
  · rw [hcond] at hocc
    cases hocc with
    | here =>
      obtain hover | hover := hover
      · exact absurd hover.holdsBefore (by decide)
      · exact absurd hover.touched (by decide)
    | andLeft h => cases h with
      | equalLeft h => cases h
      | equalRight h => cases h
    | andRight h => cases h with
      | equalLeft h => cases h
      | equalRight h => cases h

/-- A rule that an update leaves out may well change its verdict. -/
theorem skipped_rule_changes_verdict :
    let rule : Rule := { condition := .all [.is "a" "1", .is "b" "1"] }
    let before := Table.ofList [("b", "1")]
    let after := before.insert "a" "1"
    ∃ r, rule.compile .default 0 = .ok r
      ∧ (∀ name, name ∉ ["a"] → before.get? name = after.get? name)
      ∧ r.condition.isTouchedBy ["a"] = false
      ∧ (r.evaluate before).map Outcome.verdict = .ok ⟨0, false, []⟩
      ∧ (r.evaluate after).map Outcome.verdict = .ok ⟨0, true, []⟩ := by
  intro rule before after
  refine ⟨_, rfl, fun name hname => ?_, rfl, rfl, rfl⟩
  exact (before.get?_insert_of_ne (by simpa using hname) "1").symm

end FormRules
