-- SUMMARY: The text of a path determines the path, as long as its keys show where they end.
import FormRules.Path
import FormRules.Proofs.Stretch

/-!
# Texts of paths

The text of a step that follows another begins with a point or a bracket. A plain key has neither in
it and so ends where the next step begins, and an index ends at its closing bracket, so that steps
are taken off a text one by one (`Path.stepText_append_inj`). The first step lacks its point if it
is a key, which the first character of the text tells. So a text stands for one list of plain steps
(`Path.stepsText_inj`). The name of the root stands for a single key with a space in it, and for no
path whose keys are free of spaces.
-/

namespace FormRules

/-! ## Steps of a path -/

namespace Path

@[simp] theorem key_inj {p q : Path} {name other : String} :
    p.key name = q.key other ↔ p = q ∧ name = other := by
  cases p
  cases q
  simp [key]

@[simp] theorem index_inj {p q : Path} {i j : Nat} : p.index i = q.index j ↔ p = q ∧ i = j := by
  cases p
  cases q
  simp [index]

theorem stepsText_append {steps : List Segment} (h : steps ≠ []) (more : List Segment) :
    stepsText (steps ++ more) = stepsText steps ++ String.join (more.map stepText) := by
  cases steps with
  | nil => exact absurd rfl h
  | cons first rest => cases first <;> simp [stepsText, String.append_assoc]

/-- The name of an element of an array that stands under a key. -/
theorem text_element {p : Path} (h : p.segments ≠ []) (name : String) (i : Nat) :
    ((p.key name).index i).text = p.text ++ ("." ++ (name ++ ("[" ++ (i.repr ++ "]")))) := by
  simp [text, h, stepsText_append, stepText, String.append_assoc]

end Path

/-! ## Plain steps -/

/-- Whether a character begins a step that follows another. -/
def beginsStep (c : Char) : Bool := c == '.' || c == '['

/-- A step that shows where it ends: an index, or a key with nothing in it that begins a step. -/
inductive Segment.IsPlain : Segment → Prop where
  | key {name : String} (hne : name ≠ "") (h : ∀ c ∈ name.toList, beginsStep c = false) :
    IsPlain (.key name)
  | index (i : Nat) : IsPlain (.index i)

namespace Path

/-- What may follow a key: nothing, or the text of another step. -/
def EndsKey (u : String) : Prop := ∀ c ∈ u.toList.head?, beginsStep c = true

variable {s t : Segment} {u v : String} {steps more : List Segment}

theorem endsKey_join (steps : List Segment) : EndsKey (String.join (steps.map stepText)) := by
  cases steps with
  | nil => simp [EndsKey]
  | cons s steps => cases s <;> simp [EndsKey, stepText, beginsStep]

theorem isDigit_of_mem_repr {i : Nat} {c : Char} (h : c ∈ i.repr.toList) : c.isDigit = true := by
  rw [Nat.toList_repr] at h
  exact Nat.isDigit_of_mem_toDigits (by decide) (by decide) h

/-- A step and what follows it are determined by the text of both. -/
theorem stepText_append_inj (hs : s.IsPlain) (ht : t.IsPlain) (hu : EndsKey u) (hv : EndsKey v)
    (h : stepText s ++ u = stepText t ++ v) : s = t ∧ u = v := by
  have hchars := congrArg String.toList h
  cases hs with
  | @key name _ hname =>
    cases ht with
    | @key other _ hother =>
      have hsame : name.toList ++ u.toList = other.toList ++ v.toList := by
        simpa [stepText] using hchars
      obtain ⟨hkeys, hrest⟩ := stretch_unique (p := (!beginsStep ·)) (by simpa using hname)
        (by simpa [EndsKey] using hu) (by simpa using hother) (by simpa [EndsKey] using hv) hsame
      rw [String.toList_inj] at hkeys hrest
      exact ⟨congrArg Segment.key hkeys, hrest⟩
    | index => simp [stepText] at hchars
  | index i =>
    cases ht with
    | key => simp [stepText] at hchars
    | index j =>
      have hsame : i.repr.toList ++ ']' :: u.toList = j.repr.toList ++ ']' :: v.toList := by
        simpa [stepText] using hchars
      obtain ⟨hdigits, hrest⟩ := stretch_unique (p := Char.isDigit)
        (fun c => isDigit_of_mem_repr) (by simp) (fun c => isDigit_of_mem_repr) (by simp) hsame
      -- the digits are read back as the index
      rw [Nat.toList_repr, Nat.toList_repr] at hdigits
      have hindex := congrArg (Nat.ofDigitChars 10 · 0) hdigits
      simp only [Nat.ofDigitChars_ten_toDigits] at hindex
      exact ⟨congrArg Segment.index hindex, by simpa [String.toList_inj] using hrest⟩

/-- Steps that follow another are determined by their text. -/
theorem join_stepText_inj (h : ∀ s ∈ steps, s.IsPlain) (h' : ∀ s ∈ more, s.IsPlain)
    (heq : String.join (steps.map stepText) = String.join (more.map stepText)) : steps = more := by
  induction steps generalizing more with
  | nil =>
    cases more with
    | nil => rfl
    | cons t more => cases t <;> simp [stepText] at heq
  | cons s steps ih =>
    cases more with
    | nil => cases s <;> simp [stepText] at heq
    | cons t more =>
      rw [List.forall_mem_cons] at h h'
      rw [List.map_cons, List.map_cons, String.join_cons, String.join_cons] at heq
      obtain ⟨rfl, hrest⟩ :=
        stepText_append_inj h.1 h'.1 (endsKey_join steps) (endsKey_join more) heq
      rw [ih h.2 h'.2 hrest]

/-! ## The first step -/

theorem stepsText_of_endsKey (h : ∀ s ∈ steps, s.IsPlain) (hends : EndsKey (stepsText steps)) :
    stepsText steps = String.join (steps.map stepText) := by
  match steps with
  | [] => rfl
  | .index i :: rest => simp [stepsText]
  | .key name :: rest =>
    cases h (.key name) (by simp) with
    | key hne hname =>
      -- the text begins like a plain key, and so not like another step
      obtain ⟨c, cs, hcs⟩ : ∃ c cs, name.toList = c :: cs :=
        List.exists_cons_of_ne_nil (by simpa using hne)
      have hbegins : beginsStep c = true := hends c (by simp [stepsText, hcs])
      simp [hname c (by simp [hcs])] at hbegins

theorem stepsText_of_not_endsKey (hends : ¬ EndsKey (stepsText steps)) :
    "." ++ stepsText steps = String.join (steps.map stepText) := by
  match steps with
  | [] => simp [EndsKey, stepsText] at hends
  | .key name :: rest => simp [stepsText, stepText, String.append_assoc]
  | .index i :: rest => simp [EndsKey, stepsText, stepText, beginsStep] at hends

/-- Plain steps are determined by their text. -/
theorem stepsText_inj (h : ∀ s ∈ steps, s.IsPlain) (h' : ∀ s ∈ more, s.IsPlain)
    (heq : stepsText steps = stepsText more) : steps = more := by
  refine join_stepText_inj h h' ?_
  by_cases hends : EndsKey (stepsText steps)
  · rw [← stepsText_of_endsKey h hends, ← stepsText_of_endsKey h' (heq ▸ hends), heq]
  · rw [← stepsText_of_not_endsKey hends, ← stepsText_of_not_endsKey (heq ▸ hends), heq]

/-! ## Legible paths -/

theorem text_of_ne_root {p : Path} (h : p ≠ root) : p.text = stepsText p.segments := by
  obtain ⟨steps⟩ := p
  cases steps with
  | nil => exact absurd rfl h
  | cons => rfl

/-- A path that leads from the root through indices and keys, in which no key is empty or has a
character in it that begins a step or stands in the name of the root. -/
inductive IsLegible : Path → Prop where
  | root : IsLegible root
  | key {p : Path} (hp : IsLegible p) {name : String} (hne : name ≠ "")
    (h : ∀ c ∈ name.toList, c ≠ '.' ∧ c ≠ '[' ∧ c ≠ ' ') : IsLegible (p.key name)
  | index {p : Path} (hp : IsLegible p) (i : Nat) : IsLegible (p.index i)

namespace IsLegible

variable {p q : Path}

/-- A path stays legible under a word of lower-case letters and underscores. -/
theorem word (hp : p.IsLegible) {name : String} (hne : name ≠ "")
    (h : ∀ c ∈ name.toList, c.isLower = true ∨ c = '_') : (p.key name).IsLegible := by
  refine .key hp hne fun c hc => ?_
  rcases h c hc with h | rfl
  · refine ⟨?_, ?_, ?_⟩ <;> rintro rfl <;> exact absurd h (by decide)
  · decide

/-- All steps of a legible path are plain, and no key is what the root is called. -/
theorem of_mem_segments (h : p.IsLegible) :
    ∀ s ∈ p.segments, s.IsPlain ∧ s ≠ .key "document root" := by
  induction h with
  | root => simp [Path.root]
  | @key p _ name hne hname ih =>
    have hplain : (Segment.key name).IsPlain :=
      .key hne fun c hc => by simp [beginsStep, hname c hc]
    have hroot : name ≠ "document root" := by
      rintro rfl
      exact (hname ' ' (by simp)).2.2 rfl
    rw [segments_key, List.forall_mem_append, List.forall_mem_singleton]
    exact ⟨ih, hplain, by simpa using hroot⟩
  | index _ i ih =>
    rw [segments_index, List.forall_mem_append, List.forall_mem_singleton]
    exact ⟨ih, .index i, by simp⟩

theorem isPlain (h : p.IsLegible) : ∀ s ∈ p.segments, s.IsPlain :=
  fun s hs => (h.of_mem_segments s hs).1

theorem text_eq_root_iff (h : p.IsLegible) : p.text = "document root" ↔ p = .root := by
  refine ⟨fun htext => ?_, fun heq => heq ▸ rfl⟩
  by_contra hne
  have hplain : ∀ s ∈ [Segment.key "document root"], s.IsPlain :=
    List.forall_mem_singleton.mpr (.key (by simp) (by simp [beginsStep]))
  -- the name of the root stands for one list of plain steps, which no legible path has
  have hsteps : p.segments = [.key "document root"] :=
    stepsText_inj h.isPlain hplain ((text_of_ne_root hne).symm.trans htext)
  exact (h.of_mem_segments (.key "document root") (by simp [hsteps])).2 rfl

theorem text_inj (hp : p.IsLegible) (hq : q.IsLegible) (h : p.text = q.text) : p = q := by
  by_cases hproot : p = .root
  · rw [hproot, text_root] at h
    rw [hproot, hq.text_eq_root_iff.mp h.symm]
  · have hqroot : q ≠ .root := by
      rintro rfl
      exact hproot (hp.text_eq_root_iff.mp h)
    rw [text_of_ne_root hproot, text_of_ne_root hqroot] at h
    exact congrArg Path.mk (stepsText_inj hp.isPlain hq.isPlain h)

end IsLegible

end Path

/-- Let two paths lead from the root through indices and keys, where no key is empty or has a point,
an opening bracket or a space in it. (Words of lower-case letters and underscores are such keys.)
The paths have the same text exactly if they are the same path, and the name of the root is the text
of the root alone. -/
theorem text_identifies_path {p q : Path} (hp : p.IsLegible) (hq : q.IsLegible) :
    (p.text = q.text ↔ p = q) ∧ (p.text = "document root" ↔ p = .root) :=
  ⟨⟨hp.text_inj hq, congrArg Path.text⟩, hp.text_eq_root_iff⟩

/-- Texts with the same letters and digits, divided into steps in different ways. -/
theorem text_identifies_path_of_pick_list :
    let p := (((Path.root.key "maps").index 1).index 12).key "pick_list_values"
    let q := ((((Path.root.key "maps").index 11).index 2).key "pick_list").key "values"
    p.IsLegible ∧ q.IsLegible ∧ p.text = "maps[1][12].pick_list_values"
      ∧ q.text = "maps[11][2].pick_list.values" ∧ (p.text = q.text ↔ p = q)
      ∧ (p.text = "document root" ↔ p = .root) := by
  intro p q
  have hmaps : (Path.root.key "maps").IsLegible := .word .root (by simp) (by simp)
  have hp : p.IsLegible := .word ((hmaps.index 1).index 12) (by simp) (by simp)
  have hlist : ((((Path.root.key "maps").index 11).index 2).key "pick_list").IsLegible :=
    .word ((hmaps.index 11).index 2) (by simp) (by simp)
  have hq : q.IsLegible := .word hlist (by simp) (by simp)
  obtain ⟨hsame, hroot⟩ := text_identifies_path hp hq
  exact ⟨hp, hq, by decide, by decide, hsame, hroot⟩

/-- A key with a point in it looks like two keys. -/
example : (Path.root.key "a.b").text = ((Path.root.key "a").key "b").text := by decide

end FormRules
