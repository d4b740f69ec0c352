-- SUMMARY: Which texts spell a JSON value, and that the written ones do.
import FormRules.Json.Cursor
import FormRules.Json.Write

/-!
# Spelling

A text spells a value if it is the value's own characters with any blanks between its parts. Both
texts that are written for a value spell it. Numbers are left out: no value that is written and read
again by this program has any.
-/

namespace FormRules.Json

/-! ## Values without numbers -/

/-- A value in which no number stands. -/
inductive Numberless : Json → Prop where
  | null : Numberless .null
  | bool (b : Bool) : Numberless (.bool b)
  | text (s : String) : Numberless (.text s)
  | list {xs : List Json} (h : ∀ x ∈ xs, Numberless x) : Numberless (.list xs)
  | object {es : List (String × Json)} (h : ∀ e ∈ es, Numberless e.2) : Numberless (.object es)

/-! ## Spelled parts -/

/-- What a stretch of a text can spell: a value, or what is left of a container from one of its
parts on. -/
inductive Part where
  | value (j : Json)
  | items (xs : List Json)
  | members (es : List (String × Json))

/-- A stretch of blanks. -/
def Blanks (cs : List Char) : Prop := ∀ c ∈ cs, Cursor.isBlank c = true

/-- The characters that spell a part. Those of the rest of a container begin with a part and end
with the closing bracket, so that no stretch begins with a blank. -/
inductive Spells : Part → List Char → Prop where
  | null : Spells (.value .null) (scalarText .null).toList
  | bool (b : Bool) : Spells (.value (.bool b)) (scalarText (.bool b)).toList
  | text (s : String) : Spells (.value (.text s)) (escaped s).toList
  | noItems (hb : Blanks b) : Spells (.value (.list [])) ('[' :: (b ++ [']']))
  | list (hb : Blanks b) (h : Spells (.items xs) t) : Spells (.value (.list xs)) ('[' :: (b ++ t))
  | lastItem (h : Spells (.value x) t) (hb : Blanks b) : Spells (.items [x]) (t ++ (b ++ [']']))
  | item (h : Spells (.value x) t) (hb : Blanks b) (hb' : Blanks b') (hrest : Spells (.items xs) u) :
      Spells (.items (x :: xs)) (t ++ (b ++ ',' :: (b' ++ u)))
  | noMembers (hb : Blanks b) : Spells (.value (.object [])) ('\x7b' :: (b ++ ['\x7d']))
  | object (hb : Blanks b) (h : Spells (.members es) t) :
      Spells (.value (.object es)) ('\x7b' :: (b ++ t))
  | lastMember (key : String) (hk : Blanks k) (hv : Blanks v) (h : Spells (.value x) t)
      (hb : Blanks b) :
      Spells (.members [(key, x)])
        ((escaped key).toList ++ (k ++ ':' :: (v ++ (t ++ (b ++ ['\x7d'])))))
  | member (key : String) (hk : Blanks k) (hv : Blanks v) (h : Spells (.value x) t) (hb : Blanks b)
      (hb' : Blanks b') (hrest : Spells (.members es) u) :
      Spells (.members ((key, x) :: es))
        ((escaped key).toList ++ (k ++ ':' :: (v ++ (t ++ (b ++ ',' :: (b' ++ u))))))

/-! ## Written values -/

@[simp] theorem blanks_nil : Blanks [] := by simp [Blanks]

theorem blanks_newline (depth : Nat) : Blanks (newline depth).toList := by
  simp [Blanks, newline, Cursor.isBlank]

section Compact

theorem spells_compactItems {x : Json} {xs : List Json}
    (h : ∀ y ∈ x :: xs, Spells (.value y) (compact y).toList) :
    Spells (.items (x :: xs)) ((compactItems (x :: xs)).toList ++ [']']) := by
  induction xs generalizing x with
  | nil => exact .lastItem (h x (by simp)) blanks_nil
  | cons y ys ih =>
    obtain ⟨hx, hrest⟩ := List.forall_mem_cons.mp h
    simpa [compactItems] using Spells.item hx blanks_nil blanks_nil (ih hrest)

theorem spells_compactEntries {e : String × Json} {es : List (String × Json)}
    (h : ∀ d ∈ e :: es, Spells (.value d.2) (compact d.2).toList) :
    Spells (.members (e :: es)) ((compactEntries (e :: es)).toList ++ ['\x7d']) := by
  induction es generalizing e with
  | nil =>
    simpa [compactEntries] using
      Spells.lastMember e.1 blanks_nil blanks_nil (h e (by simp)) blanks_nil
  | cons d ds ih =>
    obtain ⟨he, hrest⟩ := List.forall_mem_cons.mp h
    simpa [compactEntries] using
      Spells.member e.1 blanks_nil blanks_nil he blanks_nil blanks_nil (ih hrest)

/-- The compact text of a value spells it. -/
theorem spells_compact {j : Json} (h : j.Numberless) : Spells (.value j) (compact j).toList := by
  induction h with
  | null => exact .null
  | bool b => exact .bool b
  | text s => exact .text s
  | @list xs _ ih =>
    cases xs with
    | nil => exact .noItems blanks_nil
    | cons x xs => simpa [compact] using Spells.list blanks_nil (spells_compactItems ih)
  | @object es _ ih =>
    cases es with
    | nil => exact .noMembers blanks_nil
    | cons e es =>
      rw [toList_compact_object]
      exact .object (b := []) blanks_nil (spells_compactEntries ih)

end Compact

section Indented

variable {depth : Nat}

theorem spells_indentedItems {x : Json} {xs : List Json} {b : List Char} (hb : Blanks b)
    (h : ∀ y ∈ x :: xs, Spells (.value y) (indentedAt depth y).toList) :
    Spells (.items (x :: xs)) ((indentedItems depth (x :: xs)).toList ++ (b ++ [']'])) := by
  induction xs generalizing x with
  | nil => exact .lastItem (h x (by simp)) hb
  | cons y ys ih =>
    obtain ⟨hx, hrest⟩ := List.forall_mem_cons.mp h
    simpa [indentedItems] using Spells.item hx blanks_nil (blanks_newline depth) (ih hrest)

theorem spells_indentedEntries {e : String × Json} {es : List (String × Json)} {b : List Char}
    (hb : Blanks b) (h : ∀ d ∈ e :: es, Spells (.value d.2) (indentedAt depth d.2).toList) :
    Spells (.members (e :: es)) ((indentedEntries depth (e :: es)).toList ++ (b ++ ['\x7d'])) := by
  have hblank : Blanks [' '] := by simp [Blanks, Cursor.isBlank]
  induction es generalizing e with
  | nil =>
    simpa [indentedEntries] using
      Spells.lastMember e.1 blanks_nil hblank (h e (by simp)) hb
  | cons d ds ih =>
    obtain ⟨he, hrest⟩ := List.forall_mem_cons.mp h
    simpa [indentedEntries] using
      Spells.member e.1 blanks_nil hblank he blanks_nil (blanks_newline depth) (ih hrest)

/-- The indented text of a value spells it, at every depth. -/
theorem spells_indentedAt {j : Json} (h : j.Numberless) (depth : Nat) :
    Spells (.value j) (indentedAt depth j).toList := by
  induction h generalizing depth with
  | null => exact .null
  | bool b => exact .bool b
  | text s => exact .text s
  | @list xs _ ih =>
    cases xs with
    | nil =>
      rw [indentedAt]
      exact .noItems blanks_nil
    | cons x xs =>
      simpa [indentedAt] using Spells.list (blanks_newline (depth + 1))
        (spells_indentedItems (blanks_newline depth) fun y hy => ih y hy (depth + 1))
  | @object es _ ih =>
    cases es with
    | nil =>
      rw [indentedAt]
      exact .noMembers blanks_nil
    | cons e es =>
      rw [toList_indentedAt_object]
      exact .object (blanks_newline (depth + 1))
        (spells_indentedEntries (blanks_newline depth) fun d hd => ih d hd (depth + 1))

end Indented

/-- Whichever text is written for a value spells it. -/
theorem spells_write {j : Json} (h : j.Numberless) (pretty : Bool) :
    Spells (.value j) (j.write pretty).toList := by
  cases pretty with
  | true => exact spells_indentedAt h 0
  | false => exact spells_compact h

end FormRules.Json
