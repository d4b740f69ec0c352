-- SUMMARY: A text that spells a value is parsed as a node that holds it.
import FormRules.Json.Parse
import FormRules.Proofs.Json.Escaping
import FormRules.Proofs.Json.Holding
import FormRules.Proofs.Json.Spelling

/-!
# Parsing what is spelled

The parser takes the characters that spell a value for exactly that value, as long as its
containers do not stand too deep inside each other, and goes on behind them. The text of a value
with blanks around it is therefore the text of a node that holds the value, and of nothing else.
-/

namespace FormRules.Json

/-! ## Nesting -/

mutual

/-- The number of containers on the longest way into a value. -/
def nesting : Json → Nat
  | list xs => nestingItems xs + 1
  | object es => nestingEntries es + 1
  | null => 0
  | bool _ => 0
  | number _ => 0
  | text _ => 0

def nestingItems : List Json → Nat
  | [] => 0
  | x :: rest => max (nesting x) (nestingItems rest)

def nestingEntries : List (String × Json) → Nat
  | [] => 0
  | (_, x) :: rest => max (nesting x) (nestingEntries rest)

end

theorem nesting_list_le {n : Nat} {xs : List Json} (h : ∀ x ∈ xs, x.nesting ≤ n) :
    (list xs).nesting ≤ n + 1 := by
  have hitems : nestingItems xs ≤ n := by
    induction xs with
    | nil => exact Nat.zero_le n
    | cons x rest ih =>
      rw [List.forall_mem_cons] at h
      exact Nat.max_le.mpr ⟨h.1, ih h.2⟩
  exact Nat.succ_le_succ hitems

theorem nesting_object_le {n : Nat} {es : List (String × Json)} (h : ∀ e ∈ es, e.2.nesting ≤ n) :
    (object es).nesting ≤ n + 1 := by
  have hentries : nestingEntries es ≤ n := by
    induction es with
    | nil => exact Nat.zero_le n
    | cons e rest ih =>
      rw [List.forall_mem_cons] at h
      exact Nat.max_le.mpr ⟨h.1, ih h.2⟩
  exact Nat.succ_le_succ hentries

/-! ## Blanks -/

theorem Cursor.skipBlanks_append {b : List Char} (hb : Blanks b) {c : Char}
    (hc : isBlank c = false) (rest : List Char) (o : Nat) :
    (Cursor.mk (b ++ c :: rest) o).skipBlanks = ⟨c :: rest, o + b.length⟩ := by
  unfold skipBlanks skipWhile
  simp [List.dropWhile_append_of_pos hb, List.takeWhile_append_of_pos hb, hc]

/-- No spelling begins with a blank or with the end of a container. -/
theorem Spells.head_value {j : Json} {t : List Char} (h : Spells (.value j) t) :
    ∃ c u, t = c :: u ∧ Cursor.isBlank c = false ∧ c ≠ ']' := by
  cases h with
  | null => exact ⟨'n', _, rfl, by decide, by decide⟩
  | bool b => cases b <;> exact ⟨_, _, rfl, by decide, by decide⟩
  | text s => exact ⟨'"', _, toList_escaped s, by decide, by decide⟩
  | noItems | list => exact ⟨'[', _, rfl, by decide, by decide⟩
  | noMembers | object => exact ⟨'\x7b', _, rfl, by decide, by decide⟩

theorem Spells.head_items {xs : List Json} {t : List Char} (h : Spells (.items xs) t) :
    ∃ c u, t = c :: u ∧ Cursor.isBlank c = false ∧ c ≠ ']' := by
  cases h with
  | lastItem h hb | item h hb =>
    obtain ⟨c, u, rfl, hc⟩ := h.head_value
    exact ⟨c, _, rfl, hc⟩

/-! ## Steps of the parser -/

namespace Parse

/-- A parser goes from the characters `cs` on to `rest`, and finds what is asked for. -/
def Takes (parse : Cursor → ν × Option Cursor) (Found : ν → Prop) (cs rest : List Char) : Prop :=
  ∀ o, ∃ found stop, parse ⟨cs, o⟩ = (found, some ⟨rest, stop⟩) ∧ Found found

variable {fuel depth : Nat} {b b' cs cs' rest : List Char} {c : Char} {x : Json}

/-- The text of a value without parts is taken for that value. -/
theorem takes_scalar (hb : Blanks b) {s : Scalar}
    (hs : Spells (.value s.toJson) (scalarText s.toJson).toList) :
    Takes (value (fuel + 1) depth) (·.Holds s.toJson) (b ++ ((scalarText s.toJson).toList ++ rest))
      rest := by
  intro o
  suffices h : ∃ stop, value (fuel + 1) depth ⟨b ++ ((scalarText s.toJson).toList ++ rest), o⟩
      = (.scalar (.ok s) stop, some ⟨rest, stop⟩) by
    obtain ⟨stop, h⟩ := h
    exact ⟨_, stop, h, .scalar rfl stop⟩
  cases s with
  | null =>
    refine ⟨o + b.length + 4, ?_⟩
    rw [value]
    simp [scalarText, Scalar.toJson, Cursor.skipBlanks_append hb, Cursor.isBlank, word]
  | bool v =>
    cases v with
    | false =>
      refine ⟨o + b.length + 5, ?_⟩
      rw [value]
      simp [scalarText, Scalar.toJson, Cursor.skipBlanks_append hb, Cursor.isBlank, word]
    | true =>
      refine ⟨o + b.length + 4, ?_⟩
      rw [value]
      simp [scalarText, Scalar.toJson, Cursor.skipBlanks_append hb, Cursor.isBlank, word]
  | number n => cases hs
  | text s =>
    obtain ⟨stop, hscan⟩ := Quotation.scan_escapedRest s rest (o + b.length + 1)
    refine ⟨stop, ?_⟩
    rw [Scalar.toJson, scalarText, toList_escaped, List.cons_append, value]
    simp [Cursor.skipBlanks_append hb, Cursor.isBlank, quotation, hscan, Except.map]

section Lists

variable {xs : List Json}

theorem takes_list (hb : Blanks b) (hdepth : depth < deepestNesting)
    (h : Takes (items fuel (depth + 1)) (·.Hold xs) cs rest) :
    Takes (value (fuel + 1) depth) (·.Holds (.list xs)) (b ++ '[' :: cs) rest := by
  intro o
  obtain ⟨found, stop, hitems, hfound⟩ := h (o + b.length + 1)
  refine ⟨.list (o + b.length) none found, stop, ?_, .list hfound _⟩
  rw [value]
  simp [Cursor.skipBlanks_append hb, Cursor.isBlank, hitems, tooDeep, hdepth]

theorem takes_noItems (hb : Blanks b) :
    Takes (items (fuel + 1) depth) (·.Hold []) (b ++ ']' :: rest) rest := by
  intro o
  refine ⟨.closed (o + b.length + 1), o + b.length + 1, ?_, .nil _⟩
  rw [items]
  simp [Cursor.skipBlanks_append hb, Cursor.isBlank]

theorem takes_items (hb : Blanks b) (hc : Cursor.isBlank c = false) (hend : c ≠ ']')
    (h : Takes (item fuel depth) (·.Hold xs) (c :: cs) rest) :
    Takes (items (fuel + 1) depth) (·.Hold xs) (b ++ c :: cs) rest := by
  intro o
  obtain ⟨found, stop, hitem, hfound⟩ := h (o + b.length)
  refine ⟨found, stop, ?_, hfound⟩
  rw [items]
  simp [Cursor.skipBlanks_append hb hc, hend, hitem]

theorem takes_lastItem (hb : Blanks b)
    (h : Takes (value fuel depth) (·.Holds x) cs (b ++ ']' :: rest)) :
    Takes (item (fuel + 1) depth) (·.Hold [x]) cs rest := by
  intro o
  obtain ⟨node, stop, hvalue, hnode⟩ := h o
  refine ⟨.more node (stop + b.length + 1) none (.closed (stop + b.length + 1)),
    stop + b.length + 1, ?_, .cons hnode (.nil _) _ _⟩
  rw [item]
  simp [hvalue, Cursor.skipBlanks_append hb, Cursor.isBlank]

theorem takes_item (hb : Blanks b) (hb' : Blanks b') (hc : Cursor.isBlank c = false) (hend : c ≠ ']')
    (h : Takes (value fuel depth) (·.Holds x) cs (b ++ ',' :: (b' ++ c :: cs')))
    (hrest : Takes (item fuel depth) (·.Hold xs) (c :: cs') rest) :
    Takes (item (fuel + 1) depth) (·.Hold (x :: xs)) cs rest := by
  intro o
  obtain ⟨node, settle, hvalue, hnode⟩ := h o
  obtain ⟨others, stop, hothers, hhold⟩ := hrest (settle + b.length + 1 + b'.length)
  obtain ⟨place, surplus, hitem⟩ : ∃ place surplus,
      item (fuel + 1) depth ⟨cs, o⟩ = (.more node place surplus others, some ⟨rest, stop⟩) := by
    rw [item]
    simp [hvalue, Cursor.skipBlanks_append hb, Cursor.skipBlanks_append hb' hc, Cursor.isBlank,
      hothers, hend]
  exact ⟨_, stop, hitem, .cons hnode hhold place surplus⟩

end Lists

section Objects

variable {es : List (String × Json)} {k : List Char}

theorem takes_object (hb : Blanks b) (hdepth : depth < deepestNesting)
    (h : Takes (members fuel (depth + 1)) (·.Hold es) cs rest) :
    Takes (value (fuel + 1) depth) (·.Holds (.object es)) (b ++ '\x7b' :: cs) rest := by
  intro o
  obtain ⟨found, stop, hmembers, hfound⟩ := h (o + b.length + 1)
  refine ⟨.object (o + b.length) none found, stop, ?_, .object hfound _⟩
  rw [value]
  simp [Cursor.skipBlanks_append hb, Cursor.isBlank, hmembers, tooDeep, hdepth]

theorem takes_noMembers (hb : Blanks b) :
    Takes (members (fuel + 1) depth) (·.Hold []) (b ++ '\x7d' :: rest) rest := by
  intro o
  refine ⟨.closed (o + b.length + 1), o + b.length + 1, ?_, .nil _⟩
  rw [members]
  simp [Cursor.skipBlanks_append hb, Cursor.isBlank]

theorem takes_members (hb : Blanks b) (h : Takes (member fuel depth) (·.Hold es) cs rest) :
    Takes (members (fuel + 1) depth) (·.Hold es) (b ++ '"' :: cs) rest := by
  intro o
  obtain ⟨found, stop, hmember, hfound⟩ := h (o + b.length + 1)
  refine ⟨found, stop, ?_, hfound⟩
  rw [members]
  simp [Cursor.skipBlanks_append hb, Cursor.isBlank, hmember]

theorem takes_lastMember (key : String) (hk : Blanks k) (hb : Blanks b)
    (h : Takes (value fuel depth) (·.Holds x) cs (b ++ '\x7d' :: rest)) :
    Takes (member (fuel + 1) depth) (·.Hold [(key, x)]) (escapedRest key ++ (k ++ ':' :: cs))
      rest := by
  intro o
  obtain ⟨colon, hkey⟩ := Quotation.scan_escapedRest key (k ++ ':' :: cs) o
  obtain ⟨node, stop, hvalue, hnode⟩ := h (colon + k.length + 1)
  refine ⟨.more (.ok key) (colon + k.length) node (stop + b.length + 1)
    (.closed (stop + b.length + 1)), stop + b.length + 1, ?_, .cons hnode (.nil _) key _ _⟩
  rw [member]
  simp [hkey, hvalue, Cursor.skipBlanks_append hk, Cursor.skipBlanks_append hb, Cursor.isBlank]

theorem takes_member (key : String) (hk : Blanks k) (hb : Blanks b) (hb' : Blanks b')
    (h : Takes (value fuel depth) (·.Holds x) cs (b ++ ',' :: (b' ++ '"' :: cs')))
    (hrest : Takes (member fuel depth) (·.Hold es) cs' rest) :
    Takes (member (fuel + 1) depth) (·.Hold ((key, x) :: es)) (escapedRest key ++ (k ++ ':' :: cs))
      rest := by
  intro o
  obtain ⟨colon, hkey⟩ := Quotation.scan_escapedRest key (k ++ ':' :: cs) o
  obtain ⟨node, settle, hvalue, hnode⟩ := h (colon + k.length + 1)
  obtain ⟨others, stop, hothers, hhold⟩ := hrest (settle + b.length + 1 + b'.length + 1)
  refine ⟨.more (.ok key) (colon + k.length) node (settle + b.length) others, stop, ?_,
    .cons hnode hhold key _ _⟩
  rw [member]
  simp [hkey, hvalue, hothers, Cursor.skipBlanks_append hk, Cursor.skipBlanks_append hb,
    Cursor.skipBlanks_append hb', Cursor.isBlank]

end Objects

end Parse

/-! ## Parts -/

/-- The parser takes the characters of a part for the part, whatever follows them. Every character
calls for at most three steps inside each other. -/
def Part.IsParsedFrom (t : List Char) : Part → Prop
  | .value j => ∀ b, Blanks b → ∀ fuel depth rest,
      3 * t.length ≤ fuel → depth + j.nesting ≤ deepestNesting →
      Parse.Takes (Parse.value fuel depth) (·.Holds j) (b ++ (t ++ rest)) rest
  | .items xs => ∀ fuel depth rest,
      3 * t.length < fuel → depth + nestingItems xs ≤ deepestNesting →
      Parse.Takes (Parse.item fuel depth) (·.Hold xs) (t ++ rest) rest
  | .members es => ∃ u, t = '"' :: u ∧ ∀ fuel depth rest,
      3 * t.length < fuel → depth + nestingEntries es ≤ deepestNesting →
      Parse.Takes (Parse.member fuel depth) (·.Hold es) (u ++ rest) rest

theorem isParsedFrom_scalar {s : Scalar}
    (hs : Spells (.value s.toJson) (scalarText s.toJson).toList) :
    (Part.value s.toJson).IsParsedFrom (scalarText s.toJson).toList := by
  intro b hb fuel depth rest hfuel _
  obtain ⟨c, u, ht, -⟩ := hs.head_value
  obtain ⟨n, rfl⟩ : ∃ n, fuel = n + 1 := Nat.exists_eq_add_one.mpr (by simp [ht] at hfuel; omega)
  exact Parse.takes_scalar hb hs

theorem Spells.isParsedFrom {p : Part} {t : List Char} (h : Spells p t) : p.IsParsedFrom t := by
  induction h with
  | null => exact isParsedFrom_scalar (s := .null) .null
  | bool v => exact isParsedFrom_scalar (s := .bool v) (.bool v)
  | text v => exact isParsedFrom_scalar (s := .text v) (.text v)
  | noItems hb₁ =>
    intro b hb fuel depth rest hfuel hdepth
    simp only [List.length_cons] at hfuel
    simp only [nesting, nestingItems] at hdepth
    obtain ⟨n, rfl⟩ : ∃ n, fuel = n + 2 := Nat.exists_eq_add_of_le' (by omega)
    simpa using Parse.takes_list hb (by omega) (Parse.takes_noItems hb₁)
  | list hb₁ hspells ih =>
    intro b hb fuel depth rest hfuel hdepth
    obtain ⟨c, u, rfl, hc, hend⟩ := hspells.head_items
    simp only [List.length_cons, List.length_append] at hfuel
    simp only [nesting] at hdepth
    obtain ⟨n, rfl⟩ : ∃ n, fuel = n + 2 := Nat.exists_eq_add_of_le' (by omega)
    have hitem := ih n (depth + 1) rest (by simp only [List.length_cons]; omega) (by omega)
    simpa using Parse.takes_list hb (by omega) (Parse.takes_items hb₁ hc hend hitem)
  | @lastItem x t b _ hb ih =>
    intro fuel depth rest hfuel hdepth
    simp only [List.length_append, List.length_singleton] at hfuel
    simp only [nestingItems] at hdepth
    obtain ⟨n, rfl⟩ : ∃ n, fuel = n + 1 := Nat.exists_eq_add_one.mpr (by omega)
    have hvalue := ih [] blanks_nil n depth (b ++ ']' :: rest) (by omega) (by omega)
    simpa using Parse.takes_lastItem hb hvalue
  | @item x t b b' xs u _ hb hb' hspells ih ihrest =>
    intro fuel depth rest hfuel hdepth
    obtain ⟨c, u, rfl, hc, hend⟩ := hspells.head_items
    simp only [List.length_append, List.length_cons] at hfuel
    simp only [nestingItems] at hdepth
    obtain ⟨n, rfl⟩ : ∃ n, fuel = n + 1 := Nat.exists_eq_add_one.mpr (by omega)
    have hvalue := ih [] blanks_nil n depth (b ++ ',' :: (b' ++ c :: (u ++ rest))) (by omega) (by omega)
    have hitem := ihrest n depth rest (by simp only [List.length_cons]; omega) (by omega)
    simpa using Parse.takes_item hb hb' hc hend hvalue hitem
  | noMembers hb₁ =>
    intro b hb fuel depth rest hfuel hdepth
    simp only [List.length_cons] at hfuel
    simp only [nesting, nestingEntries] at hdepth
    obtain ⟨n, rfl⟩ : ∃ n, fuel = n + 2 := Nat.exists_eq_add_of_le' (by omega)
    simpa using Parse.takes_object hb (by omega) (Parse.takes_noMembers hb₁)
  | object hb₁ _ ih =>
    intro b hb fuel depth rest hfuel hdepth
    obtain ⟨u, rfl, hmember⟩ := ih
    simp only [List.length_cons, List.length_append] at hfuel
    simp only [nesting] at hdepth
    obtain ⟨n, rfl⟩ : ∃ n, fuel = n + 2 := Nat.exists_eq_add_of_le' (by omega)
    have hmember := hmember n (depth + 1) rest (by simp only [List.length_cons]; omega) (by omega)
    simpa using Parse.takes_object hb (by omega) (Parse.takes_members hb₁ hmember)
  | @lastMember k v x t b key hk hv _ hb ih =>
    refine ⟨_, by rw [toList_escaped, List.cons_append], fun fuel depth rest hfuel hdepth => ?_⟩
    simp only [List.length_append, List.length_cons] at hfuel
    simp only [nestingEntries] at hdepth
    obtain ⟨n, rfl⟩ : ∃ n, fuel = n + 1 := Nat.exists_eq_add_one.mpr (by omega)
    have hvalue := ih v hv n depth (b ++ '\x7d' :: rest) (by omega) (by omega)
    simpa using Parse.takes_lastMember key hk hb hvalue
  | @member k v x t b b' es u key hk hv _ hb hb' _ ih ihrest =>
    obtain ⟨u, rfl, hmember⟩ := ihrest
    refine ⟨_, by rw [toList_escaped, List.cons_append], fun fuel depth rest hfuel hdepth => ?_⟩
    simp only [List.length_append, List.length_cons] at hfuel
    simp only [nestingEntries] at hdepth
    obtain ⟨n, rfl⟩ : ∃ n, fuel = n + 1 := Nat.exists_eq_add_one.mpr (by omega)
    have hvalue := ih v hv n depth (b ++ ',' :: (b' ++ '"' :: (u ++ rest))) (by omega) (by omega)
    have hmember := hmember n depth rest (by simp only [List.length_cons]; omega) (by omega)
    simpa using Parse.takes_member key hk hb hb' hvalue hmember

/-! ## Texts -/

/-- The text of a value, with blanks after it, is the text of a node that holds the value, and of
nothing else. -/
theorem Source.ofText_of_spells {source : String} {j : Json} {t b : List Char}
    (h : Spells (.value j) t) (hb : Blanks b) (hsource : source.toList = t ++ b)
    (hdepth : j.nesting ≤ deepestNesting) :
    (Source.ofText source).root.Holds j ∧ (Source.ofText source).surplus = none := by
  have hparse := h.isParsedFrom [] blanks_nil (3 * source.toList.length + 3) 0 b
    (by simp only [hsource, List.length_append]; omega) (by omega)
  obtain ⟨node, stop, hvalue, hnode⟩ := hparse 0
  rw [List.nil_append, ← hsource] at hvalue
  have hafter : (Cursor.mk b stop).skipBlanks.rest = [] := by
    have : (b ++ []).dropWhile Cursor.isBlank = [] := List.dropWhile_append_of_pos hb
    simpa [Cursor.skipBlanks, Cursor.skipWhile] using this
  simp [Source.ofText, Cursor.ofText, hvalue, hafter, hnode]

end FormRules.Json
