-- SUMMARY: Finite tables from text to values, kept in key order, and the laws of their operations.

/-!
# Tables

A table maps finitely many texts to values. Its entries stand in strictly increasing key order, so
a key occurs at most once and two tables with the same look-ups are equal (`Table.ext_get?`). What
an operation does is said through `Table.get?`.
-/

namespace FormRules

/-! ## Texts are linearly ordered -/

theorem text_lt_trans {a b c : String} (hab : a < b) (hbc : b < c) : a < c :=
  String.lt_trans hab hbc

theorem text_ne_of_lt {a b : String} (h : a < b) : a ≠ b := by
  rintro rfl
  exact String.lt_irrefl a h

theorem text_lt_of_not_lt {a b : String} (hne : a ≠ b) (h : ¬ a < b) : b < a := by
  by_cases hba : b < a
  · exact hba
  · exact absurd (String.le_antisymm (String.not_lt.mp hba) (String.not_lt.mp h)) hne

/-! ## Entries -/

/-- Keys strictly increase along the list. -/
def KeySorted (entries : List (String × α)) : Prop :=
  entries.Pairwise fun a b => a.1 < b.1

namespace Entries

/-- The value stored under a key. -/
def get? (key : String) : List (String × α) → Option α
  | [] => none
  | (k, v) :: rest => if key = k then some v else get? key rest

/-- Put a value at the place of its key, over the one that is there. -/
def insert (key : String) (value : α) : List (String × α) → List (String × α)
  | [] => [(key, value)]
  | (k, v) :: rest =>
    if key = k then (key, value) :: rest
    else if key < k then (key, value) :: (k, v) :: rest
    else (k, v) :: insert key value rest

def erase (key : String) : List (String × α) → List (String × α)
  | [] => []
  | (k, v) :: rest => if key = k then rest else (k, v) :: erase key rest

@[simp] theorem get?_nil (key : String) : get? key ([] : List (String × α)) = none := rfl

theorem get?_eq_none_of_forall_ne {key : String} {entries : List (String × α)}
    (h : ∀ e ∈ entries, key ≠ e.1) : get? key entries = none := by
  induction entries with
  | nil => rfl
  | cons e rest ih =>
    obtain ⟨k, v⟩ := e
    have hk : key ≠ k := h (k, v) (by simp)
    simp [get?, hk, ih fun e he => h e (List.mem_cons_of_mem _ he)]

theorem mem_of_get? {key : String} {value : α} {entries : List (String × α)}
    (h : get? key entries = some value) : (key, value) ∈ entries := by
  induction entries with
  | nil => simp at h
  | cons e rest ih =>
    obtain ⟨k, v⟩ := e
    by_cases hk : key = k
    · simp [get?, hk] at h
      simp [hk, h]
    · exact List.mem_cons_of_mem _ (ih (by simpa [get?, hk] using h))

theorem isSome_get? {key : String} {entries : List (String × α)} :
    (get? key entries).isSome ↔ key ∈ entries.map (·.1) := by
  induction entries with
  | nil => simp
  | cons e rest ih =>
    obtain ⟨k, v⟩ := e
    by_cases hk : key = k
    · simp [get?, hk]
    · simpa [get?, hk] using ih

theorem get?_insert (key other : String) (value : α) (entries : List (String × α)) :
    get? other (insert key value entries)
      = if other = key then some value else get? other entries := by
  induction entries with
  | nil => simp [insert, get?]
  | cons e rest ih =>
    obtain ⟨k, v⟩ := e
    by_cases hk : key = k
    · by_cases ho : other = key <;> simp_all [insert, get?]
    · by_cases hlt : key < k
      · simp [insert, hk, hlt, get?]
      · by_cases ho : other = k
        · subst ho
          simp [insert, hk, hlt, get?, Ne.symm hk]
        · simp [insert, hk, hlt, get?, ho, ih]

theorem mem_insert {key : String} {value : α} {entries : List (String × α)} {e : String × α}
    (h : e ∈ insert key value entries) : e = (key, value) ∨ e ∈ entries := by
  induction entries with
  | nil => simpa [insert] using h
  | cons head rest ih =>
    obtain ⟨k, v⟩ := head
    by_cases hk : key = k
    · simp only [insert, hk, if_true, List.mem_cons] at h
      rcases h with h | h
      · exact Or.inl (by simp [h, hk])
      · exact Or.inr (List.mem_cons_of_mem _ h)
    · by_cases hlt : key < k
      · simpa [insert, hk, hlt] using h
      · simp only [insert, hk, hlt, if_false, List.mem_cons] at h
        rcases h with h | h
        · exact Or.inr (by simp [h])
        · exact (ih h).imp_right (List.mem_cons_of_mem _)

theorem erase_sublist (key : String) (entries : List (String × α)) :
    (erase key entries).Sublist entries := by
  induction entries with
  | nil => exact List.Sublist.slnil
  | cons head rest ih =>
    obtain ⟨k, v⟩ := head
    by_cases hk : key = k
    · simp [erase, hk]
    · simpa [erase, hk] using ih

end Entries

open Entries in
theorem KeySorted.insert {entries : List (String × α)} (h : KeySorted entries) (key : String)
    (value : α) : KeySorted (insert key value entries) := by
  induction entries with
  | nil => simp [KeySorted, Entries.insert]
  | cons head rest ih =>
    obtain ⟨k, v⟩ := head
    obtain ⟨hhead, hrest⟩ := List.pairwise_cons.mp h
    by_cases hk : key = k
    · subst hk
      simpa [Entries.insert, KeySorted] using And.intro hhead hrest
    · by_cases hlt : key < k
      · simp only [Entries.insert, hk, hlt, if_true, if_false]
        refine List.pairwise_cons.mpr ⟨fun e he => ?_, h⟩
        rcases List.mem_cons.mp he with rfl | he
        · exact hlt
        · exact text_lt_trans hlt (hhead e he)
      · simp only [Entries.insert, hk, hlt, if_false]
        refine List.pairwise_cons.mpr ⟨fun e he => ?_, ih hrest⟩
        rcases mem_insert he with rfl | he
        · exact text_lt_of_not_lt hk hlt
        · exact hhead e he

theorem KeySorted.erase {entries : List (String × α)} (h : KeySorted entries) (key : String) :
    KeySorted (Entries.erase key entries) :=
  List.Pairwise.sublist (Entries.erase_sublist key entries) h

theorem KeySorted.get?_head {k : String} {v : α} {rest : List (String × α)}
    (h : KeySorted ((k, v) :: rest)) : Entries.get? k rest = none :=
  Entries.get?_eq_none_of_forall_ne fun e he =>
    text_ne_of_lt ((List.pairwise_cons.mp h).1 e he)

/-- Sorted lists of entries with the same look-ups are equal. -/
theorem KeySorted.eq_of_get?_eq {xs ys : List (String × α)} (hx : KeySorted xs)
    (hy : KeySorted ys) (h : ∀ key, Entries.get? key xs = Entries.get? key ys) : xs = ys := by
  induction xs generalizing ys with
  | nil =>
    cases ys with
    | nil => rfl
    | cons e rest => simpa [Entries.get?] using h e.1
  | cons e xs ih =>
    obtain ⟨k, v⟩ := e
    cases ys with
    | nil => simpa [Entries.get?] using h k
    | cons e' ys =>
      obtain ⟨k', v'⟩ := e'
      have hkk : k = k' := by
        by_cases hne : k = k'
        · exact hne
        · have hk := Entries.mem_of_get? (by simpa [Entries.get?, hne] using (h k).symm)
          have hk' := Entries.mem_of_get? (by simpa [Entries.get?, Ne.symm hne] using h k')
          have h1 := (List.pairwise_cons.mp hy).1 _ hk
          have h2 := (List.pairwise_cons.mp hx).1 _ hk'
          exact absurd (text_lt_trans h1 h2) (String.lt_irrefl _)
      subst hkk
      have hv : v = v' := by simpa [Entries.get?] using h k
      subst hv
      have hrest : xs = ys := by
        refine ih (List.pairwise_cons.mp hx).2 (List.pairwise_cons.mp hy).2 fun key => ?_
        by_cases hkey : key = k
        · subst hkey
          rw [hx.get?_head, hy.get?_head]
        · simpa [Entries.get?, hkey] using h key
      rw [hrest]

/-! ## Tables -/

/-- Finitely many values, each under a text of its own. -/
structure Table (α : Type) where
  entries : List (String × α) := []
  sorted : KeySorted entries := by exact List.Pairwise.nil

namespace Table

def empty : Table α := {}

instance : Inhabited (Table α) := ⟨empty⟩

/-- The value stored under a key. -/
def get? (t : Table α) (key : String) : Option α := Entries.get? key t.entries

/-- Store a value under a key, over the one that is there. -/
def insert (t : Table α) (key : String) (value : α) : Table α :=
  ⟨Entries.insert key value t.entries, t.sorted.insert key value⟩

def erase (t : Table α) (key : String) : Table α :=
  ⟨Entries.erase key t.entries, t.sorted.erase key⟩

/-- Store every entry of a list, in its order, so that of two with one key the later stays. -/
def insertAll (t : Table α) : List (String × α) → Table α
  | [] => t
  | (k, v) :: rest => (t.insert k v).insertAll rest

def ofList (entries : List (String × α)) : Table α := empty.insertAll entries

/-- Put every entry of another table on top of this one. -/
def mergedWith (t other : Table α) : Table α := t.insertAll other.entries

def size (t : Table α) : Nat := t.entries.length

def isEmpty (t : Table α) : Bool := t.entries.isEmpty

def keys (t : Table α) : List String := t.entries.map (·.1)

instance [DecidableEq α] : DecidableEq (Table α) := fun s t =>
  decidable_of_iff (s.entries = t.entries) <| by
    cases s; cases t; simp

/-! ## What the operations store -/

@[ext] theorem ext_get? {s t : Table α} (h : ∀ key, s.get? key = t.get? key) : s = t := by
  obtain ⟨xs, hx⟩ := s
  obtain ⟨ys, hy⟩ := t
  have := hx.eq_of_get?_eq hy h
  subst this
  rfl

@[simp] theorem get?_empty (key : String) : (empty : Table α).get? key = none := rfl

theorem get?_insert (t : Table α) (key other : String) (value : α) :
    (t.insert key value).get? other = if other = key then some value else t.get? other :=
  Entries.get?_insert key other value t.entries

@[simp] theorem get?_insert_self (t : Table α) (key : String) (value : α) :
    (t.insert key value).get? key = some value := by
  simp [get?_insert]

theorem get?_insert_of_ne (t : Table α) {key other : String} (h : other ≠ key) (value : α) :
    (t.insert key value).get? other = t.get? other := by
  simp [get?_insert, h]

theorem get?_erase (t : Table α) (key other : String) :
    (t.erase key).get? other = if other = key then none else t.get? other := by
  obtain ⟨entries, hs⟩ := t
  simp only [get?, erase]
  induction entries with
  | nil => simp [Entries.erase]
  | cons e rest ih =>
    obtain ⟨k, v⟩ := e
    have hrest : KeySorted rest := (List.pairwise_cons.mp hs).2
    by_cases hk : key = k
    · subst hk
      by_cases ho : other = key
      · subst ho
        simpa [Entries.erase] using hs.get?_head
      · simp [Entries.erase, Entries.get?, ho]
    · by_cases ho : other = k
      · subst ho
        simp [Entries.erase, Entries.get?, hk, Ne.symm hk]
      · simp [Entries.erase, Entries.get?, hk, ho, ih hrest]

@[simp] theorem get?_erase_self (t : Table α) (key : String) : (t.erase key).get? key = none := by
  simp [get?_erase]

@[simp] theorem insertAll_nil (t : Table α) : t.insertAll [] = t := rfl

@[simp] theorem insertAll_cons (t : Table α) (k : String) (v : α) (rest : List (String × α)) :
    t.insertAll ((k, v) :: rest) = (t.insert k v).insertAll rest := rfl

theorem isSome_get?_insertAll (t : Table α) (entries : List (String × α)) (key : String) :
    ((t.insertAll entries).get? key).isSome ↔ key ∈ entries.map (·.1) ∨ (t.get? key).isSome := by
  induction entries generalizing t with
  | nil => simp
  | cons e rest ih =>
    obtain ⟨k, v⟩ := e
    rw [insertAll_cons, ih, get?_insert]
    by_cases hk : key = k <;> simp [hk]

/-- Every entry of the other table is found first. -/
theorem get?_mergedWith (t other : Table α) (key : String) :
    (t.mergedWith other).get? key = (other.get? key).or (t.get? key) := by
  obtain ⟨entries, hs⟩ := other
  simp only [mergedWith, get?]
  induction entries generalizing t with
  | nil => simp
  | cons e rest ih =>
    obtain ⟨k, v⟩ := e
    have hrest : KeySorted rest := (List.pairwise_cons.mp hs).2
    rw [insertAll_cons, ih (t.insert k v) hrest]
    by_cases hk : key = k
    · subst hk
      rw [hs.get?_head]
      simp [insert, Entries.get?_insert, Entries.get?]
    · simp [insert, Entries.get?_insert, Entries.get?, hk]

theorem mem_keys {t : Table α} {key : String} : key ∈ t.keys ↔ (t.get? key).isSome :=
  Entries.isSome_get?.symm

/-- The keys of a list of entries are those of the table that is made of them. -/
theorem mem_keys_ofList {entries : List (String × α)} {key : String} :
    key ∈ (ofList entries).keys ↔ key ∈ entries.map (·.1) := by
  rw [mem_keys, ofList, isSome_get?_insertAll]
  simp

end Table

end FormRules
