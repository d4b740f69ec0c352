-- SUMMARY: The text of a condition determines it up to the nesting of chains.
import FormRules.Proofs.Condition.Token

/-!
# Shown conditions are unambiguous

The tokens of a shown condition are read from left to right. A reading keeps the disjuncts that are
complete, the conjuncts of the one that is not, and as much for every parenthesis that is still
open. What a legible condition adds to a reading is the condition itself, with its chains nested to
the left (`Expr.ReadsAsConjunct`, `Expr.ReadsAsDisjunct`). So two conditions with one text have one
reading, and each of them differs from it in the nesting of chains alone.
-/

namespace FormRules

/-! ## Legible conditions and their tokens -/

/-- Tokens in parentheses, if what they show binds less strongly than what surrounds it. -/
def enclosed (own surrounding : Nat) (ts : List Token) : List Token :=
  if own < surrounding then .opening :: (ts ++ [.closing]) else ts

namespace Expr

/-- All equalities compare leaves, and all leaves show where they end. -/
inductive IsLegible : Expr → Prop where
  | operand {e : Expr} (h : e.IsOperand) : IsLegible e
  | join (c : Connective) {l r : Expr} (hl : IsLegible l) (hr : IsLegible r) :
    IsLegible (c.join l r)

/-- The tokens of an expression that is shown inside an operator of a given precedence. -/
def tokensWithin (surrounding : Nat) : Expr → List Token
  | and l r => enclosed 2 surrounding (l.tokensWithin 2 ++ .connective .and :: r.tokensWithin 2)
  | or l r => enclosed 1 surrounding (l.tokensWithin 1 ++ .connective .or :: r.tokensWithin 1)
  | e => [.operand e]

theorem tokensWithin_join (c : Connective) (l r : Expr) (surrounding : Nat) :
    (c.join l r).tokensWithin surrounding = enclosed c.precedence surrounding
      (l.tokensWithin c.precedence ++ .connective c :: r.tokensWithin c.precedence) := by
  cases c <;> rfl

theorem IsOperand.tokensWithin_eq {e : Expr} (h : e.IsOperand) (surrounding : Nat) :
    e.tokensWithin surrounding = [.operand e] := by
  cases h with
  | leaf h => cases h <;> rfl
  | equal => rfl

/-- The tokens of a legible expression make up its text, before all that may follow an operand. -/
theorem IsLegible.spells {e : Expr} (h : e.IsLegible) {surrounding : Nat} (hs : surrounding ≤ 4)
    {ts : List Token} {cs : List Char} (hcs : Token.EndsOperand cs) (hts : Token.Spells ts cs) :
    Token.Spells (e.tokensWithin surrounding ++ ts) ((e.shownWithin surrounding).toList ++ cs) := by
  induction h generalizing surrounding ts cs with
  | operand h =>
    rw [h.tokensWithin_eq, h.shownWithin_eq hs]
    exact .cons ⟨h, hcs⟩ hts
  | @join c l r _ _ ihl ihr =>
    have hc : c.precedence ≤ 4 := by cases c <;> decide
    have hbody : ∀ {ts cs}, Token.EndsOperand cs → Token.Spells ts cs →
        Token.Spells (l.tokensWithin c.precedence
            ++ .connective c :: (r.tokensWithin c.precedence ++ ts))
          ((l.shownWithin c.precedence).toList
            ++ (c.between.toList ++ ((r.shownWithin c.precedence).toList ++ cs))) :=
      fun hcs hts => ihl hc (.connective c _) (.cons trivial (ihr hc hcs hts))
    rw [tokensWithin_join, shownWithin_join]
    unfold enclosed parenthesized
    split
    · -- the parenthesis that closes is what ends the last operand
      have hclosed := hbody (.closing cs) (.cons trivial hts)
      have hopened := Token.Spells.cons (t := .opening) trivial hclosed
      simpa [Token.text] using hopened
    · simpa using hbody hcs hts

end Expr

/-! ## Reading tokens -/

/-- Join an expression to those before it. -/
def Connective.append (c : Connective) : Option Expr → Expr → Expr
  | none, e => e
  | some before, e => c.join before e

/-- What has been read since a parenthesis was opened: the disjuncts that are complete, and the
conjuncts of the one that is not. -/
structure Reading where
  disjuncts : Option Expr := none
  conjuncts : Option Expr := none

namespace Reading

/-- Read one more conjunct. -/
def add (r : Reading) (e : Expr) : Reading :=
  { r with conjuncts := some (Connective.and.append r.conjuncts e) }

/-- What has been read as an expression. -/
def value? (r : Reading) : Option Expr := r.conjuncts.map (Connective.or.append r.disjuncts)

/-- Read a token. The readings are those of the parentheses that are open, the innermost first. -/
def step : Reading × List Reading → Token → Reading × List Reading
  | (r, outer), .opening => ({}, r :: outer)
  | (r, o :: outer), .closing => ((r.value?.map o.add).getD o, outer)
  | (r, []), .closing => (r, [])
  | (r, outer), .connective .and => (r, outer)
  | (r, outer), .connective .or => ({ disjuncts := r.value? }, outer)
  | (r, outer), .operand e => (r.add e, outer)

end Reading

namespace Expr

theorem Reassociates.append (c : Connective) (before : Option Expr) {e e' : Expr}
    (h : e.Reassociates e') : (c.append before e).Reassociates (c.append before e') := by
  cases before with
  | none => exact h
  | some before => exact .join c (.refl before) h

/-- A chain may as well be joined to what is before it side by side. -/
theorem Reassociates.append_join (c : Connective) {before : Option Expr} {l l' r r' : Expr}
    (hl : (c.append before l).Reassociates l') (hr : (c.append (some l') r).Reassociates r') :
    (c.append before (c.join l r)).Reassociates r' := by
  have hnested : (c.append before (c.join l r)).Reassociates (c.join (c.append before l) r) := by
    cases before with
    | none => exact .refl _
    | some before => exact (assoc c before l r).symm
  exact hnested.trans ((join c hl (.refl r)).trans hr)

/-- Inside a conjunction the tokens of an expression are read as one more conjunct, or several. -/
def ReadsAsConjunct (e : Expr) : Prop :=
  ∀ (r : Reading) (outer : List Reading), ∃ e',
    (Connective.and.append r.conjuncts e).Reassociates e'
      ∧ (e.tokensWithin 2).foldl Reading.step (r, outer) = ({ r with conjuncts := some e' }, outer)

/-- Inside a disjunction the tokens of an expression are read as one more disjunct, or several. -/
def ReadsAsDisjunct (e : Expr) : Prop :=
  ∀ (before : Option Expr) (outer : List Reading), ∃ r e',
    (Connective.or.append before e).Reassociates e' ∧ r.value? = some e'
      ∧ (e.tokensWithin 1).foldl Reading.step ({ disjuncts := before }, outer) = (r, outer)

variable {l r e : Expr}

theorem ReadsAsConjunct.and (hl : l.ReadsAsConjunct) (hr : r.ReadsAsConjunct) :
    (Expr.and l r).ReadsAsConjunct := by
  intro reading outer
  obtain ⟨l', hl', hreadl⟩ := hl reading outer
  obtain ⟨r', hr', hreadr⟩ := hr { reading with conjuncts := some l' } outer
  refine ⟨r', .append_join .and hl' hr', ?_⟩
  have htokens : (Expr.and l r).tokensWithin 2
      = l.tokensWithin 2 ++ .connective .and :: r.tokensWithin 2 := rfl
  rw [htokens, List.foldl_append, hreadl, List.foldl_cons]
  exact hreadr

theorem ReadsAsDisjunct.or (hl : l.ReadsAsDisjunct) (hr : r.ReadsAsDisjunct) :
    (Expr.or l r).ReadsAsDisjunct := by
  intro before outer
  obtain ⟨readl, l', hl', hvalue, hreadl⟩ := hl before outer
  obtain ⟨readr, r', hr', hvaluer, hreadr⟩ := hr (some l') outer
  refine ⟨readr, r', .append_join .or hl' hr', hvaluer, ?_⟩
  have htokens : (Expr.or l r).tokensWithin 1
      = l.tokensWithin 1 ++ .connective .or :: r.tokensWithin 1 := rfl
  rw [htokens, List.foldl_append, hreadl, List.foldl_cons, Reading.step, hvalue]
  exact hreadr

/-- An expression that stands without parentheses in a conjunction stands without them in a
disjunction, as a single disjunct. -/
theorem ReadsAsConjunct.disjunct (h : e.ReadsAsConjunct)
    (htokens : e.tokensWithin 1 = e.tokensWithin 2) : e.ReadsAsDisjunct := by
  intro before outer
  obtain ⟨e', he', hread⟩ := h { disjuncts := before } outer
  exact ⟨_, _, he'.append .or before, rfl, htokens ▸ hread⟩

/-- An expression in parentheses is one conjunct. -/
theorem ReadsAsDisjunct.conjunct (h : e.ReadsAsDisjunct)
    (htokens : e.tokensWithin 2 = .opening :: (e.tokensWithin 1 ++ [.closing])) :
    e.ReadsAsConjunct := by
  intro reading outer
  obtain ⟨inner, e', he', hvalue, hread⟩ := h none (reading :: outer)
  refine ⟨_, he'.append .and reading.conjuncts, ?_⟩
  rw [htokens, List.foldl_cons, List.foldl_append, Reading.step, hread, List.foldl_cons,
    List.foldl_nil, Reading.step, hvalue]
  rfl

theorem IsLegible.reads (h : e.IsLegible) : e.ReadsAsConjunct ∧ e.ReadsAsDisjunct := by
  induction h with
  | @operand e h =>
    have hconjunct : e.ReadsAsConjunct := by
      intro reading outer
      rw [h.tokensWithin_eq]
      exact ⟨_, .refl _, rfl⟩
    exact ⟨hconjunct, hconjunct.disjunct (by rw [h.tokensWithin_eq, h.tokensWithin_eq])⟩
  | @join c l r _ _ ihl ihr =>
    cases c with
    | and =>
      have hconjunct : (Expr.and l r).ReadsAsConjunct := ihl.1.and ihr.1
      exact ⟨hconjunct, hconjunct.disjunct rfl⟩
    | or =>
      have hdisjunct : (Expr.or l r).ReadsAsDisjunct := ihl.2.or ihr.2
      exact ⟨hdisjunct.conjunct rfl, hdisjunct⟩

/-- All tokens together are read as the expression, with its chains nested to the left. -/
theorem IsLegible.exists_value (h : e.IsLegible) : ∃ reading e',
    e.Reassociates e' ∧ reading.value? = some e'
      ∧ (e.tokensWithin 0).foldl Reading.step ({}, []) = (reading, []) := by
  have htokens : e.tokensWithin 0 = e.tokensWithin 1 := by cases e <;> rfl
  rw [htokens]
  obtain ⟨reading, e', he', hvalue, hread⟩ := h.reads.2 none []
  exact ⟨reading, e', he', hvalue, hread⟩

/-- Legible expressions with one text have one reading. -/
theorem IsLegible.reassociates (h : e.IsLegible) {e' : Expr} (h' : e'.IsLegible)
    (hshown : e.shown = e'.shown) : e.Reassociates e' := by
  have hspells := h.spells (Nat.zero_le 4) .done .nil
  have hspells' := h'.spells (Nat.zero_le 4) .done .nil
  rw [← shown, ← hshown] at hspells'
  have htokens : e.tokensWithin 0 = e'.tokensWithin 0 := by simpa using hspells.unique hspells'
  obtain ⟨reading, x, hx, hvalue, hread⟩ := h.exists_value
  obtain ⟨reading', x', hx', hvalue', hread'⟩ := h'.exists_value
  rw [← htokens, hread] at hread'
  cases hread'
  cases hvalue.symm.trans hvalue'
  exact hx.trans hx'.symm

end Expr

/-- Let all equalities in two expressions compare leaves, let no given text have a quote in it, and
no name of a field a space or a closing parenthesis. The expressions are shown as the same text
exactly if they differ at most in how chains of conjunctions and chains of disjunctions are nested.
In that case they come to the same outcome or to the same error, whatever the values of the fields
are. -/
theorem shown_conditions_are_unambiguous {e e' : Expr} (h : e.IsLegible) (h' : e'.IsLegible) :
    (e.shown = e'.shown ↔ e.Reassociates e')
      ∧ (e.shown = e'.shown → ∀ values : FormValues,
        (e.evaluate values).map Trace.outcome = (e'.evaluate values).map Trace.outcome) := by
  refine ⟨⟨h.reassociates h', fun hsame => hsame.shownWithin_eq 0⟩, fun hshown values => ?_⟩
  exact (h.reassociates h' hshown).outcome_eq

/-- A given text looks like a part of the condition, and a disjunction is in parentheses. -/
theorem shown_conditions_are_unambiguous_of_chain :
    let compared : Expr := .equal (.field "a$") (.literal (.text "x) AND (y"))
    let either : Expr := .or (.field "b") (.equal (.field "c") (.literal .null))
    let e : Expr := .and (.and compared either) (.literal (.bool true))
    let e' : Expr := .and compared (.and either (.literal (.bool true)))
    e.IsLegible ∧ e'.IsLegible ∧ e ≠ e'
      ∧ e.shown = "$a$ == \"x) AND (y\" AND ($b OR $c == null) AND true" ∧ e.shown = e'.shown
      ∧ e.Reassociates e' ∧ ∀ values : FormValues,
        (e.evaluate values).map Trace.outcome = (e'.evaluate values).map Trace.outcome := by
  intro compared either e e'
  have hcompared : compared.IsLegible :=
    .operand (.equal (.field (by simp)) (.text (by simp)))
  have heither : either.IsLegible :=
    .join .or (.operand (.leaf (.field (by simp)))) (.operand (.equal (.field (by simp)) .null))
  have htrue : (Expr.literal (.bool true)).IsLegible := .operand (.leaf (.bool true))
  have h : e.IsLegible := .join .and (.join .and hcompared heither) htrue
  have h' : e'.IsLegible := .join .and hcompared (.join .and heither htrue)
  have htext : e.shown = "$a$ == \"x) AND (y\" AND ($b OR $c == null) AND true" := rfl
  have hshown : e.shown = e'.shown := rfl
  obtain ⟨hiff, houtcome⟩ := shown_conditions_are_unambiguous h h'
  exact ⟨h, h', by decide, htext, hshown, hiff.mp hshown, houtcome hshown⟩

end FormRules
