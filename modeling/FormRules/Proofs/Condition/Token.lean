-- SUMMARY: The tokens of a shown condition, and that its text determines them.
import FormRules.Proofs.Condition.Association
import FormRules.Proofs.Stretch

/-!
# Tokens of conditions

A shown condition consists of parentheses, connectives and operands, where an equality of two leaves
counts as one operand. A plain leaf shows where it ends (`Expr.IsPlainLeaf`). Where that is clear of
every operand, reading takes the tokens off a text one by one (`Token.read_text`), so that the text
has one division into tokens (`Token.Spells.unique`).
-/

namespace FormRules

/-! ## Leaves and operands -/

namespace Expr

/-- A leaf whose text shows where it ends: there is no quote in a given text, and no space and no
closing parenthesis in the name of a field. -/
inductive IsPlainLeaf : Expr → Prop where
  | text {s : String} (h : '"' ∉ s.toList) : IsPlainLeaf (.literal (.text s))
  | bool (b : Bool) : IsPlainLeaf (.literal (.bool b))
  | null : IsPlainLeaf (.literal .null)
  | field {apiName : String} (h : ∀ c ∈ apiName.toList, c ≠ ' ' ∧ c ≠ ')') :
    IsPlainLeaf (.field apiName)

/-- A leaf or an equality of leaves. -/
inductive IsOperand : Expr → Prop where
  | leaf {e : Expr} (h : e.IsPlainLeaf) : IsOperand e
  | equal {l r : Expr} (hl : l.IsPlainLeaf) (hr : r.IsPlainLeaf) : IsOperand (.equal l r)

/-- Take a leaf off a text. -/
def readLeaf : List Char → Option (Expr × List Char)
  | '"' :: cs =>
    let s := String.ofList (cs.takeWhile (· != '"'))
    some (.literal (.text s), (cs.dropWhile (· != '"')).tail)
  | '$' :: cs =>
    let isInName c := c != ' ' && c != ')'
    some (.field (String.ofList (cs.takeWhile isInName)), cs.dropWhile isInName)
  | 't' :: 'r' :: 'u' :: 'e' :: cs => some (.literal (.bool true), cs)
  | 'f' :: 'a' :: 'l' :: 's' :: 'e' :: cs => some (.literal (.bool false), cs)
  | 'n' :: 'u' :: 'l' :: 'l' :: cs => some (.literal .null, cs)
  | _ => none

/-- Take an operand off a text: a leaf, with another one if an equals sign is between them. -/
def readOperand (cs : List Char) : Option (Expr × List Char) :=
  match readLeaf cs with
  | some (l, ' ' :: '=' :: '=' :: ' ' :: cs) => (readLeaf cs).map fun (r, cs) => (.equal l r, cs)
  | found => found

end Expr

/-! ## Tokens -/

inductive Token where
  | opening
  | closing
  | connective (c : Connective)
  | operand (e : Expr)
  deriving DecidableEq, Repr

namespace Token

/-- The characters of a token. -/
def text : Token → List Char
  | opening => ['(']
  | closing => [')']
  | connective c => c.between.toList
  | operand e => e.shown.toList

/-- Take a token off a text. -/
def read : List Char → Option (Token × List Char)
  | '(' :: cs => some (opening, cs)
  | ')' :: cs => some (closing, cs)
  | ' ' :: 'A' :: 'N' :: 'D' :: ' ' :: cs => some (connective .and, cs)
  | ' ' :: 'O' :: 'R' :: ' ' :: cs => some (connective .or, cs)
  | cs => (Expr.readOperand cs).map fun (e, cs) => (operand e, cs)

/-- What may follow an operand: the end of the text, a parenthesis that closes, or a connective. -/
inductive EndsOperand : List Char → Prop where
  | done : EndsOperand []
  | closing (cs : List Char) : EndsOperand (closing.text ++ cs)
  | connective (c : Connective) (cs : List Char) : EndsOperand ((connective c).text ++ cs)

/-- It is clear where a token ends if a given text follows. -/
def EndsBefore (cs : List Char) : Token → Prop
  | operand e => e.IsOperand ∧ EndsOperand cs
  | _ => True

/-- Tokens make up a text, and it is clear where each of them ends. -/
inductive Spells : List Token → List Char → Prop where
  | nil : Spells [] []
  | cons {t : Token} {ts : List Token} {cs : List Char} (ht : t.EndsBefore cs) (h : Spells ts cs) :
    Spells (t :: ts) (t.text ++ cs)

end Token

/-! ## Reading what is shown -/

/-- What may follow a leaf: nothing, a space or a closing parenthesis. -/
def EndsLeaf (cs : List Char) : Prop := ∀ c ∈ cs.head?, c = ' ' ∨ c = ')'

theorem Token.EndsOperand.endsLeaf {cs : List Char} (h : EndsOperand cs) : EndsLeaf cs := by
  cases h with
  | done => simp [EndsLeaf]
  | closing => simp [EndsLeaf, text]
  | connective c => cases c <;> simp [EndsLeaf, text, Connective.between, Connective.symbol]

namespace Expr

variable {e l r : Expr} {cs : List Char}

@[simp] theorem shown_literal (v : Value) : (literal v).shown = v.shown := by
  simp [shown, shownWithin, parenthesized]

@[simp] theorem shown_field (apiName : String) : (field apiName).shown = "$" ++ apiName := by
  simp [shown, shownWithin, parenthesized]

theorem IsPlainLeaf.shownWithin_eq (h : e.IsPlainLeaf) {surrounding : Nat} (hs : surrounding ≤ 4) :
    e.shownWithin surrounding = e.shown := by
  have hnot : ¬ 9 < surrounding := by omega
  cases h <;> simp [shownWithin, parenthesized, hnot]

theorem IsPlainLeaf.readLeaf_shown (h : e.IsPlainLeaf) (hcs : EndsLeaf cs) :
    readLeaf (e.shown.toList ++ cs) = some (e, cs) := by
  cases h with
  | @text s hs =>
    obtain ⟨htake, hdrop⟩ : (s.toList ++ '"' :: cs).takeWhile (· != '"') = s.toList
        ∧ (s.toList ++ '"' :: cs).dropWhile (· != '"') = '"' :: cs :=
      span_append (fun c hc => by simpa using ne_of_mem_of_not_mem hc hs) (by simp)
    have hshown : (Expr.literal (.text s)).shown.toList ++ cs = '"' :: (s.toList ++ '"' :: cs) := by
      simp [Value.shown]
    rw [hshown]
    simp [readLeaf, htake, hdrop]
  | bool b => cases b <;> simp [Value.shown, readLeaf]
  | null => simp [Value.shown, readLeaf]
  | @field apiName hname =>
    have hstop : ∀ c ∈ cs.head?, (c != ' ' && c != ')') = false := by
      intro c hc
      rcases hcs c hc with rfl | rfl <;> rfl
    obtain ⟨htake, hdrop⟩ := span_append (fun c hc => by simpa using hname c hc) hstop
    have hshown : (Expr.field apiName).shown.toList ++ cs = '$' :: (apiName.toList ++ cs) := by
      simp
    rw [hshown]
    simp [readLeaf, htake, hdrop]

theorem shown_equal (hl : l.IsPlainLeaf) (hr : r.IsPlainLeaf) :
    (Expr.equal l r).shown = l.shown ++ " == " ++ r.shown := by
  have hwithin : (Expr.equal l r).shown = l.shownWithin 4 ++ " == " ++ r.shownWithin 4 := by
    simp [shown, shownWithin, parenthesized]
  rw [hwithin, hl.shownWithin_eq (Nat.le_refl 4), hr.shownWithin_eq (Nat.le_refl 4)]

theorem IsOperand.shownWithin_eq (h : e.IsOperand) {surrounding : Nat} (hs : surrounding ≤ 4) :
    e.shownWithin surrounding = e.shown := by
  cases h with
  | leaf h => exact h.shownWithin_eq hs
  | equal =>
    have hnot : ¬ 4 < surrounding := by omega
    simp [shown, shownWithin, parenthesized, hnot]

theorem IsOperand.readOperand_shown (h : e.IsOperand) (hcs : Token.EndsOperand cs) :
    readOperand (e.shown.toList ++ cs) = some (e, cs) := by
  cases h with
  | leaf h =>
    rw [readOperand, h.readLeaf_shown hcs.endsLeaf]
    -- nothing that ends an operand begins with an equals sign
    cases hcs with
    | done | closing => rfl
    | connective c => cases c <;> rfl
  | @equal l r hl hr =>
    have hshown : (Expr.equal l r).shown.toList ++ cs
        = l.shown.toList ++ (' ' :: '=' :: '=' :: ' ' :: (r.shown.toList ++ cs)) := by
      simp [shown_equal hl hr]
    rw [hshown, readOperand, hl.readLeaf_shown (by simp [EndsLeaf])]
    simp [hr.readLeaf_shown hcs.endsLeaf]

theorem IsPlainLeaf.head_shown (h : e.IsPlainLeaf) :
    ∃ c cs, e.shown.toList = c :: cs ∧ c ≠ '(' ∧ c ≠ ')' ∧ c ≠ ' ' := by
  cases h with
  | text | field => simp [Value.shown]
  | bool b => cases b <;> simp [Value.shown]
  | null => simp [Value.shown]

/-- No operand begins like a parenthesis or a connective. -/
theorem IsOperand.head_shown (h : e.IsOperand) :
    ∃ c cs, e.shown.toList = c :: cs ∧ c ≠ '(' ∧ c ≠ ')' ∧ c ≠ ' ' := by
  cases h with
  | leaf h => exact h.head_shown
  | @equal l r hl hr =>
    obtain ⟨c, cs, heq, hc⟩ := hl.head_shown
    exact ⟨c, cs ++ (" == " ++ r.shown).toList, by simp [shown_equal hl hr, heq], hc⟩

end Expr

namespace Token

/-- A token is what is taken off a text that begins with it. -/
theorem read_text {t : Token} {cs : List Char} (h : t.EndsBefore cs) :
    read (t.text ++ cs) = some (t, cs) := by
  cases t with
  | opening | closing => rfl
  | connective c => cases c <;> rfl
  | operand e =>
    obtain ⟨he, hcs⟩ := h
    obtain ⟨c, more, heq, hopening, hclosing, hspace⟩ := he.head_shown
    have hread : read (e.shown.toList ++ cs)
        = (Expr.readOperand (e.shown.toList ++ cs)).map fun (e, cs) => (operand e, cs) := by
      -- the first character rules out all patterns but the last
      rw [heq, List.cons_append]
      unfold read
      split <;> simp_all
    rw [text, hread, he.readOperand_shown hcs]
    rfl

/-- A text has one division into tokens. -/
theorem Spells.unique {ts ts' : List Token} {cs : List Char} (h : Spells ts cs)
    (h' : Spells ts' cs) : ts = ts' := by
  induction h generalizing ts' with
  | nil =>
    generalize hempty : ([] : List Char) = cs at h'
    cases h' with
    | nil => rfl
    | cons ht' =>
      have hread := read_text ht'
      rw [← hempty] at hread
      cases hread
  | @cons t ts cs ht _ ih =>
    -- both divisions begin with the token that reading takes off
    have hread := read_text ht
    generalize htext : t.text ++ cs = cs' at h' hread
    cases h' with
    | nil => cases hread
    | cons ht' h' =>
      cases hread.symm.trans (read_text ht')
      rw [ih h']

end Token

end FormRules
