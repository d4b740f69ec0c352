-- SUMMARY: Scanning the escaped characters of a text gives the text back.
import FormRules.Json.Quotation
import FormRules.Json.Write
import Mathlib.Tactic.IntervalCases

/-!
# Escaping

Every character of a text has an escaped form without an unescaped quote, which a scanner takes as
that character. So a string that is written ends where it should and has the content that was
written.
-/

namespace FormRules.Json

/-- The characters of an escaped text behind its opening quote. -/
def escapedRest (s : String) : List Char :=
  s.toList.flatMap (fun c => (escapedChar c).toList) ++ ['"']

theorem toList_escaped (s : String) : (escaped s).toList = '"' :: escapedRest s := by
  simp [escaped, escapedRest, String.toList_join, List.flatMap, Function.comp_def]

namespace Quotation

variable {c : Char} {rest : List Char} {s : Content}

/-! ## One character -/

theorem scanFrom_unit {a b c d : Char} {unit : Nat} (h : unit? a b c d = some unit) (o : Nat) :
    scanFrom ('\\' :: 'u' :: a :: b :: c :: d :: rest) o s
      = scanFrom rest (o + 6) (s.pushUnit unit (o + 6)) := by
  rw [scanFrom]
  simp only [h]

theorem scanFrom_escape {e : Char} (h : escape? e = some c) (hs : s.waiting = none) (o : Nat) :
    scanFrom ('\\' :: e :: rest) o s = scanFrom rest (o + 2) (s.push c) := by
  have hunit : e ≠ 'u' := by
    rintro rfl
    simp [escape?] at h
  rw [scanFrom]
  · simp [h, Content.unpaired, hs]
  · simpa using hunit

theorem scanFrom_plain (hquote : c ≠ '"') (hescape : c ≠ '\\') (hcontrol : ¬ c.toNat < 32)
    (hs : s.waiting = none) (o : Nat) :
    scanFrom (c :: rest) o s = scanFrom rest (o + c.utf8Size) (s.push c) := by
  rw [scanFrom]
  · simp [Content.unpaired, hs, hcontrol]
  all_goals simp [hquote, hescape]

/-- Four digits are written for a control character, and they spell it. -/
theorem exists_unit?_of_lt {n : Nat} (h : n < 32) :
    ∃ a b, ((if n < 16 then "\\u000" else "\\u00") ++ Text.hexText n).toList
      = ['\\', 'u', '0', '0', a, b] ∧ unit? '0' '0' a b = some n := by
  interval_cases n <;> exact ⟨_, _, rfl, rfl⟩

theorem pushUnit_of_lt (hs : s.waiting = none) (h : c.toNat < 32) (o : Nat) :
    s.pushUnit c.toNat o = s.push c := by
  simp only [Content.pushUnit, hs]
  rw [if_neg (by simp [isTrailing]; omega), if_neg (by simp [isLeading]; omega), Char.ofNat_toNat]

/-- A character is written as an escape of two characters, as four digits, or as itself. -/
theorem escapedChar_cases (c : Char) :
    (∃ e, (escapedChar c).toList = ['\\', e] ∧ escape? e = some c)
    ∨ (c.toNat < 32 ∧ ∃ a b, (escapedChar c).toList = ['\\', 'u', '0', '0', a, b]
        ∧ unit? '0' '0' a b = some c.toNat)
    ∨ ((escapedChar c).toList = [c] ∧ c ≠ '"' ∧ c ≠ '\\' ∧ ¬ c.toNat < 32) := by
  unfold escapedChar
  iterate 7
    split
    · next h => exact .inl ⟨_, rfl, by rw [h]; rfl⟩
  split
  · next h =>
    obtain ⟨a, b, htext, hunit⟩ := exists_unit?_of_lt (n := c.toNat) (by omega)
    exact .inr (.inl ⟨by omega, a, b, by rwa [if_pos h] at htext, hunit⟩)
  split
  · next h h' =>
    obtain ⟨a, b, htext, hunit⟩ := exists_unit?_of_lt h'
    exact .inr (.inl ⟨h', a, b, by rwa [if_neg h] at htext, hunit⟩)
  · next hquote hescape _ _ _ _ _ _ hcontrol =>
    exact .inr (.inr ⟨String.toList_singleton c, hquote, hescape, hcontrol⟩)

/-- The escaped form of a character is taken as that character. -/
theorem scanFrom_escapedChar (hs : s.waiting = none) (c : Char) (rest : List Char) (o : Nat) :
    ∃ o', scanFrom ((escapedChar c).toList ++ rest) o s = scanFrom rest o' (s.push c) := by
  obtain ⟨e, htext, he⟩ | ⟨hlt, a, b, htext, hunit⟩ | ⟨htext, hquote, hescape, hcontrol⟩ :=
    escapedChar_cases c
  · rw [htext]
    exact ⟨_, scanFrom_escape he hs o⟩
  · rw [htext]
    refine ⟨o + 6, ?_⟩
    rw [← pushUnit_of_lt hs hlt (o + 6)]
    exact scanFrom_unit hunit o
  · rw [htext]
    exact ⟨_, scanFrom_plain hquote hescape hcontrol hs o⟩

/-! ## Whole texts -/

theorem scanFrom_escaped (hflaw : s.flaw = none) (hs : s.waiting = none) (cs rest : List Char)
    (o : Nat) :
    ∃ o', scanFrom (cs.flatMap (fun c => (escapedChar c).toList) ++ '"' :: rest) o s
      = .closed (.ok (String.ofList (s.reversed.reverse ++ cs))) ⟨rest, o'⟩ := by
  induction cs generalizing s o with
  | nil =>
    refine ⟨o + 1, ?_⟩
    rw [List.flatMap_nil, List.nil_append, scanFrom]
    simp [Content.unpaired, Content.finish, hs, hflaw]
  | cons c cs ih =>
    obtain ⟨o₁, hchar⟩ := scanFrom_escapedChar hs c
      (cs.flatMap (fun c => (escapedChar c).toList) ++ '"' :: rest) o
    obtain ⟨o₂, hrest⟩ := ih (s := s.push c) hflaw hs o₁
    refine ⟨o₂, ?_⟩
    rw [List.flatMap_cons, List.append_assoc, hchar, hrest]
    simp [Content.push]

/-- A written string ends at its quote and has the content that was written. -/
theorem scan_escapedRest (s : String) (rest : List Char) (o : Nat) :
    ∃ o', scan ⟨escapedRest s ++ rest, o⟩ = .closed (.ok s) ⟨rest, o'⟩ := by
  obtain ⟨o', h⟩ := scanFrom_escaped (s := {}) rfl rfl s.toList rest o
  exact ⟨o', by simpa [scan, escapedRest] using h⟩

end Quotation

end FormRules.Json
