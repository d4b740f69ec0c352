-- SUMMARY: What holds of everything that a reader gives, whatever node it reads.
import FormRules.Proofs.Json.Faithful

/-!
# What readers keep to

What holds of a blank record and is kept by every value that a key can store holds of each record
that is read, and what holds of all that a reader gives holds of each element of a list that it
reads.
-/

namespace FormRules.Json

variable {α σ : Type} {P : σ → Prop}

/-- Whatever a key stores in a record, the record keeps a property. -/
def Slot.Keeps (P : σ → Prop) (slot : Slot σ) : Prop :=
  ∀ node store, slot.read node = .ok store → ∀ s, P s → P (store s)

theorem Slot.keeps_of_map {key : String} {p : Presence} {r : Reader α} {f : α → σ → σ}
    (h : ∀ node a, r node = .ok a → ∀ s, P s → P (f a s)) : Slot.Keeps P ⟨key, p, r.map f⟩ := by
  intro node store hstore s hs
  obtain ⟨a, ha, rfl⟩ := map_eq_ok.mp hstore
  exact h node a ha s hs

namespace Reader

variable {slots : List (Slot σ)} {record result : σ}

theorem recordMembers_keeps (hslots : ∀ slot ∈ slots, slot.Keeps P) :
    ∀ {found : Members} {seen : List String} {record : σ},
      recordMembers slots seen record found = .ok result → P record → P result
  | .closed _, _, _, h, hrecord => (recordMembers_closed_eq_ok.mp h).2 ▸ hrecord
  | .broken _ _, _, _, h, _ => by cases h
  | .unvalued (.error _) _ _, _, _, h, _ => by cases h
  | .unvalued (.ok _) _ _, _, _, h, _ => by
    rw [recordMembers] at h
    split at h <;> cases h
  | .more (.error _) _ _ _ _, _, _, h, _ => by cases h
  | .more (.ok _) _ _ _ _, _, _, h, hrecord => by
    obtain ⟨-, -, hrest⟩ | ⟨slot, store, hslot, -, hread, hrest⟩ := recordMembers_more_eq_ok.mp h
    · exact recordMembers_keeps hslots hrest hrecord
    · have hkeeps := hslots slot (List.mem_of_find?_eq_some hslot)
      exact recordMembers_keeps hslots hrest (hkeeps _ store hread _ hrecord)

theorem recordItems_keeps {name : String} {size index : Nat} {found : Items}
    (hslots : ∀ slot ∈ slots, slot.Keeps P)
    (h : recordItems name size index record slots found = .ok result) (hrecord : P record) :
    P result := by
  induction slots generalizing found index record with
  | nil =>
    rw [recordItems] at h
    cases h
    exact hrecord
  | cons slot slots ih =>
    obtain ⟨hslot, hslots⟩ := List.forall_mem_cons.mp hslots
    cases found with
    | broken _ _ => cases h
    | closed _ =>
      rw [recordItems] at h
      split at h
      · exact ih hslots h hrecord
      · cases h
    | more _ _ _ _ =>
      obtain ⟨-, store, hread, hrest⟩ := recordItems_more_eq_ok.mp h
      exact ih hslots hrest (hslot _ store hread _ hrecord)

/-- A record that is read has what the blank record has and every key keeps. -/
theorem record_keeps {name : String} {blank : σ} (hslots : ∀ slot ∈ slots, slot.Keeps P)
    (hblank : P blank) {node : Node} (h : Reader.record name slots blank node = .ok result) :
    P result := by
  match node with
  | .scalar _ _ => cases h
  | .list _ (some _) _ => cases h
  | .list _ none _ => exact recordItems_keeps hslots h hblank
  | .object _ (some _) _ => cases h
  | .object _ none _ => exact recordMembers_keeps hslots h hblank
  | .broken _ _ => cases h

theorem forall_of_items {r : Reader α} {Q : α → Prop} (hr : ∀ node a, r node = .ok a → Q a) :
    ∀ {found : Items} {index : Nat} {as : List α}, r.items index found = .ok as → ∀ a ∈ as, Q a
  | .closed _, _, _, h => by cases h; simp
  | .broken _ _, _, _, h => by cases h
  | .more value _ _ rest, _, _, h => by
    obtain ⟨a, others, ha, hothers, rfl⟩ := items_more_eq_ok.mp h
    exact List.forall_mem_cons.mpr ⟨hr value a ha, forall_of_items hr hothers⟩

theorem forall_of_list {r : Reader α} {Q : α → Prop} (hr : ∀ node a, r node = .ok a → Q a)
    {node : Node} {as : List α} (h : r.list node = .ok as) : ∀ a ∈ as, Q a := by
  match node with
  | .scalar _ _ => cases h
  | .list _ (some _) _ => cases h
  | .list _ none _ => exact forall_of_items hr h
  | .object _ _ _ => cases h
  | .broken _ _ => cases h

theorem forall_of_optional {r : Reader α} {Q : α → Prop} (hr : ∀ node a, r node = .ok a → Q a)
    {node : Node} {o : Option α} (h : optional r node = .ok o) : ∀ a ∈ o, Q a := by
  unfold optional at h
  split at h
  · cases h
    simp
  · obtain ⟨a, ha, rfl⟩ := map_eq_ok.mp h
    simpa using hr _ a ha

end Reader

/-- Only `null` is read as `null`. -/
theorem Node.value_eq_null {node : Node} (h : node.value = .ok .null) :
    ∃ stop, node = .scalar (.ok .null) stop := by
  match node with
  | .scalar (.ok s) stop => cases s <;> cases h; exact ⟨stop, rfl⟩
  | .scalar (.error _) _ => cases h
  | .list _ (some _) _ => cases h
  | .list _ none _ => obtain ⟨_, _, h⟩ := map_eq_ok.mp h; cases h
  | .object _ (some _) _ => cases h
  | .object _ none _ => obtain ⟨_, _, h⟩ := map_eq_ok.mp h; cases h
  | .broken _ _ => cases h

/-- A value of any shape that may be `null` is read as none or as something sorted. -/
theorem Reader.optional_any_eq_ok_some {node : Node} {x : Json}
    (h : optional any node = .ok (some x)) : x ≠ .null ∧ x.sorted = x := by
  unfold optional at h
  split at h
  · cases h
  · next hnull =>
    obtain ⟨_, hvalue, hx⟩ := map_eq_ok.mp h
    cases hx
    refine ⟨?_, sorted_of_value hvalue⟩
    rintro rfl
    obtain ⟨stop, rfl⟩ := Node.value_eq_null hvalue
    exact hnull stop rfl

end FormRules.Json
