-- SUMMARY: Records of which one value is replaced by another are read as before but for that value.
import FormRules.Json.Reader
import FormRules.Proofs.Success

/-!
# Replacing a value of a record

A record is read value by value. With another value under one of its keys it is read as it was, but
for what that value stores, if nothing else writes there (`Reader.Replaces`). This holds for both
written forms, wherever the key stands and whatever else the record has.
-/

namespace FormRules.Json

/-- The members with another value under a key. Their places in the text, which only failures tell,
stay. -/
def Members.withValue (key : String) (v : Node) : Members → Members
  | .more (.ok other) keySettle value settle rest =>
    .more (.ok other) keySettle (if other = key then v else value) settle (rest.withValue key v)
  | found => found

namespace Reader

variable {σ : Type} {slots : List (Slot σ)} {seen : List String} {key : String} {store : σ → σ}

/-- `store` writes over all that the slot of a key can have written, and where no other slot
writes. -/
structure Replaces (slots : List (Slot σ)) (key : String) (store : σ → σ) : Prop where
  same : ∀ slot ∈ slots, slot.key = key → ∀ node other, slot.read node = .ok other →
    ∀ s, store (other s) = store s
  apart : ∀ slot ∈ slots, slot.key ≠ key → ∀ node other, slot.read node = .ok other →
    ∀ s, store (other s) = other (store s)

theorem part_eq_ok {α : Type} {r : Reader α} {step : Segment} {value : Node} {settle : Nat} {a : α} :
    r.part step value settle = .ok a ↔ r value = .ok a :=
  mapError_eq_ok

theorem missing?_eq_none : missing? slots seen = none ↔
    ∀ slot ∈ slots, slot.presence = .required → slot.key ∈ seen := by
  simp [missing?]

/-! ## The object form -/

theorem recordMembers_closed_eq_ok {record result : σ} {stop : Nat} :
    recordMembers slots seen record (.closed stop) = .ok result ↔
      missing? slots seen = none ∧ record = result := by
  rw [recordMembers]
  cases missing? slots seen <;> simp

/-- A member is passed over if its key belongs to no slot, and is otherwise read for the first time. -/
theorem recordMembers_more_eq_ok {record result : σ} {keySettle settle : Nat} {value : Node}
    {rest : Members} :
    recordMembers slots seen record (.more (.ok key) keySettle value settle rest) = .ok result ↔
      (slots.find? (·.key = key) = none ∧ value.skip = .ok ()
        ∧ recordMembers slots seen record rest = .ok result)
      ∨ ∃ slot store, slots.find? (·.key = key) = some slot ∧ key ∉ seen
        ∧ slot.read value = .ok store
        ∧ recordMembers slots (key :: seen) (store record) rest = .ok result := by
  rw [recordMembers]
  cases slots.find? (·.key = key) with
  | none => cases value.skip <;> simp
  | some slot =>
    by_cases hseen : key ∈ seen
    · simp [hseen]
    · simp [hseen, bind_eq_ok, part_eq_ok]

/-- Of two records that `store` makes equal let the second have taken the new value, if the key is
among those seen. They stay so along the members. -/
theorem recordMembers_withValue (hstore : Replaces slots key store) {slot : Slot σ}
    (hslot : slots.find? (·.key = key) = some slot) (hrequired : slot.presence = .required)
    {v : Node} (hv : slot.read v = .ok store) :
    ∀ {found : Members} {seen : List String} {record record' result : σ},
      recordMembers slots seen record found = .ok result → store record' = store record →
      (key ∈ seen → record' = store record') →
      recordMembers slots seen record' (found.withValue key v) = .ok (store result)
  | .closed stop, seen, record, record', result, h, hrecord, htaken => by
    -- a required key has been seen by then, and so the new value is taken
    obtain ⟨hmissing, rfl⟩ := recordMembers_closed_eq_ok.mp h
    have hkey : slot.key = key := by simpa using List.find?_some hslot
    have hseen : key ∈ seen :=
      hkey ▸ missing?_eq_none.mp hmissing slot (List.mem_of_find?_eq_some hslot) hrequired
    exact recordMembers_closed_eq_ok.mpr ⟨hmissing, (htaken hseen).trans hrecord⟩
  | .broken _ _, _, _, _, _, h, _, _ => by cases h
  | .unvalued (.error _) _ _, _, _, _, _, h, _, _ => by cases h
  | .unvalued (.ok other) _ _, seen, _, _, _, h, _, _ => by
    rw [recordMembers] at h
    split at h <;> cases h
  | .more (.error _) _ _ _ _, _, _, _, _, h, _, _ => by cases h
  | .more (.ok other) keySettle value settle rest, seen, record, record', result, h, hrecord,
      htaken => by
    have ih := @recordMembers_withValue hstore slot hslot hrequired v hv rest
    rw [Members.withValue]
    obtain ⟨hnone, hskip, hrest⟩ | ⟨slot', other', hslot', hnew, hread, hrest⟩ :=
      recordMembers_more_eq_ok.mp h
    · have hne : other ≠ key := by
        rintro rfl
        simp [hslot] at hnone
      rw [if_neg hne]
      exact recordMembers_more_eq_ok.mpr (.inl ⟨hnone, hskip, ih hrest hrecord htaken⟩)
    have hmem : slot' ∈ slots := List.mem_of_find?_eq_some hslot'
    have hkey : slot'.key = other := by simpa using List.find?_some hslot'
    refine recordMembers_more_eq_ok.mpr (.inr ?_)
    split
    · next heq =>
      subst heq
      cases hslot.symm.trans hslot'
      -- the key comes now, and does not come again
      have hover : ∀ s, store (store s) = store s := hstore.same slot hmem hkey v store hv
      refine ⟨slot, store, hslot, hnew, hv, ih hrest ?_ fun _ => (hover record').symm⟩
      rw [hover, hrecord, hstore.same slot hmem hkey value other' hread]
    · next hne =>
      have hapart := hstore.apart slot' hmem (hkey ▸ hne) value other' hread
      refine ⟨slot', other', hslot', hnew, hread, ih hrest ?_ fun hmem => ?_⟩
      · rw [hapart, hapart, hrecord]
      · obtain heq | hseen := List.mem_cons.mp hmem
        · exact absurd heq.symm hne
        · rw [hapart, ← htaken hseen]

/-! ## The array form -/

/-- An element is read, and after the last slot the array ends. -/
theorem recordItems_more_eq_ok {name : String} {size index settle : Nat} {slot : Slot σ}
    {record result : σ} {value : Node} {surplus : Option Fault} {rest : Items} :
    recordItems name size index record (slot :: slots) (.more value settle surplus rest) = .ok result
      ↔ (slots = [] → surplus = none) ∧ ∃ store, slot.read value = .ok store
        ∧ recordItems name size (index + 1) (store record) slots rest = .ok result := by
  rw [recordItems]
  cases slots with
  | nil => cases surplus <;> simp [bind_eq_ok, part_eq_ok]
  | cons => simp [bind_eq_ok, part_eq_ok]

/-- A change that goes together with all that the slots write goes together with reading them. -/
theorem recordItems_map {name : String} {size index : Nat} {f : σ → σ} {record result : σ}
    {found : Items}
    (hf : ∀ slot ∈ slots, ∀ node other, slot.read node = .ok other →
      ∀ s, f (other s) = other (f s))
    (h : recordItems name size index record slots found = .ok result) :
    recordItems name size index (f record) slots found = .ok (f result) := by
  induction slots generalizing found index record with
  | nil =>
    cases h
    rw [recordItems]
  | cons slot slots ih =>
    obtain ⟨hslot, hslots⟩ := List.forall_mem_cons.mp hf
    cases found with
    | broken read skip => cases h
    | closed stop =>
      rw [recordItems] at h ⊢
      split at h
      · next hdefaulted =>
        rw [if_pos hdefaulted]
        exact ih hslots h
      · cases h
    | more value settle surplus rest =>
      obtain ⟨hsurplus, other, hread, hrest⟩ := recordItems_more_eq_ok.mp h
      refine recordItems_more_eq_ok.mpr ⟨hsurplus, other, hread, ?_⟩
      rw [← hslot value other hread]
      exact ih hslots hrest

/-- The first element of an array is the value of the first slot. -/
theorem recordItems_withFirst {slot : Slot σ} (hstore : Replaces (slot :: slots) key store)
    (hkey : slot.key = key) (hkeys : ∀ slot ∈ slots, slot.key ≠ key) {v : Node}
    (hv : slot.read v = .ok store) {name : String} {size index settle : Nat} {record result : σ}
    {value : Node} {surplus : Option Fault} {rest : Items}
    (h : recordItems name size index record (slot :: slots) (.more value settle surplus rest)
      = .ok result) :
    recordItems name size index record (slot :: slots) (.more v settle surplus rest)
      = .ok (store result) := by
  obtain ⟨hsurplus, other, hread, hrest⟩ := recordItems_more_eq_ok.mp h
  refine recordItems_more_eq_ok.mpr ⟨hsurplus, store, hv, ?_⟩
  rw [← hstore.same slot List.mem_cons_self hkey value other hread]
  refine recordItems_map (fun slot' hmem => ?_) hrest
  exact hstore.apart slot' (List.mem_cons_of_mem _ hmem) (hkeys slot' hmem)

end Reader

end FormRules.Json
