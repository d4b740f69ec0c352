-- SUMMARY: Readers for which it makes no difference whether a value stands in a text or in memory.
import FormRules.Json.Reader
import FormRules.Proofs.Json.Mirroring
import FormRules.Proofs.Json.Replacing
import Mathlib.Data.List.Forall2
import Mathlib.Data.List.Pairwise

/-!
# Faithful readers

A reader is faithful if it reads a node and the value that the node mirrors alike. There is one rule
for each way in which readers are put together. What sets the two forms of an object apart is the
order of the members, so a record has to store what its keys hold in places apart from each other.
-/

namespace FormRules.Json

variable {α β σ : Type}

/-- A reader reads every node as it reads the value that the node mirrors. -/
def Reader.Faithful (r : Reader α) : Prop :=
  ∀ ⦃node : Node⦄ ⦃x : Json⦄, node.Mirrors x → ∀ a, r node = .ok a ↔ r (Node.ofJson x) = .ok a

namespace Reader

/-! ## Single values -/

theorem faithful_text : text.Faithful := by
  intro node x h a
  cases h with
  | scalar s _ => cases s <;> simp [Scalar.toJson, Node.ofJson, text]
  | list _ _ | object _ _ _ => simp [Node.ofJson, text]

theorem faithful_bool : bool.Faithful := by
  intro node x h a
  cases h with
  | scalar s _ => cases s <;> simp [Scalar.toJson, Node.ofJson, bool]
  | list _ _ | object _ _ _ => simp [Node.ofJson, bool]

theorem faithful_any : any.Faithful := by
  intro node x h a
  rw [any, h.holds.value_eq, Node.value_ofJson]

theorem Faithful.map {r : Reader α} (h : r.Faithful) (f : α → β) : (r.map f).Faithful := by
  intro node x hnode b
  simp only [Reader.map, map_eq_ok, h hnode]

theorem Faithful.optional {r : Reader α} (h : r.Faithful) : (optional r).Faithful := by
  intro node x hnode o
  have hvalue : (r node).map some = .ok o ↔ (r (Node.ofJson x)).map some = .ok o :=
    h.map some hnode o
  cases hnode with
  | scalar s _ =>
    rw [Node.ofJson_toJson] at hvalue ⊢
    cases s with
    | null => exact Iff.rfl
    | bool _ | number _ | text _ => exact hvalue
  | list _ _ | object _ _ _ =>
    rw [Node.ofJson] at hvalue ⊢
    exact hvalue

/-! ## Lists -/

theorem items_more_eq_ok {r : Reader α} {index settle : Nat} {value : Node} {surplus : Option Fault}
    {rest : Items} {as : List α} : r.items index (.more value settle surplus rest) = .ok as ↔
      ∃ a others, r value = .ok a ∧ r.items (index + 1) rest = .ok others ∧ a :: others = as := by
  simp only [items, bind_eq_ok, part_eq_ok, Except.ok.injEq]
  grind

theorem Faithful.items {r : Reader α} (h : r.Faithful) {found : Items} {xs : List Json}
    (hfound : found.Mirror xs) (index index' count : Nat) (as : List α) :
    r.items index found = .ok as ↔ r.items index' (Items.ofJson count xs) = .ok as := by
  induction xs generalizing found index index' as with
  | nil => cases hfound; exact Iff.rfl
  | cons x xs ih =>
    cases hfound with
    | cons hvalue hrest settle hsurplus =>
      simp only [Items.ofJson, items_more_eq_ok, h hvalue, ih hrest (index + 1) (index' + 1)]

theorem Faithful.list {r : Reader α} (h : r.Faithful) : (list r).Faithful := by
  intro node x hnode as
  cases hnode with
  | scalar s _ => simp [Reader.list]
  | list hfound _ =>
    rw [Node.ofJson]
    exact h.items hfound 0 0 _ as
  | object _ _ _ => simp [Node.ofJson, Reader.list]

/-! ## Alternatives and recursion -/

theorem either_eq_ok {name : String} {first second : Reader α} {node : Node} {a : α} :
    either name first second node = .ok a ↔ (∃ x, node.value = .ok x) ∧
      (first node = .ok a ∨ (∀ b, first node ≠ .ok b) ∧ second node = .ok a) := by
  rw [either]
  cases node.value with
  | error _ => simp
  | ok _ => cases first node <;> cases second node <;> simp

theorem Faithful.either {name : String} {first second : Reader α} (h : first.Faithful)
    (h' : second.Faithful) : (either name first second).Faithful := by
  intro node x hnode a
  have hvalue : (∃ y, node.value = .ok y) ↔ ∃ y, (Node.ofJson x).value = .ok y := by
    rw [hnode.holds.value_eq, Node.value_ofJson]
  simp only [either_eq_ok, hvalue, ne_eq, h hnode, h' hnode]

theorem faithful_unfold {step : Reader α → Reader α}
    (h : ∀ self : Reader α, self.Faithful → (step self).Faithful) :
    ∀ n, (unfold step n).Faithful
  | 0 => fun _ _ _ _ => by simp [unfold]
  | n + 1 => h _ (faithful_unfold h n)

/-- A reader that uses itself does so equally often, for the heights are equal. -/
theorem faithful_fix {step : Reader α → Reader α}
    (h : ∀ self : Reader α, self.Faithful → (step self).Faithful) : (fix step).Faithful := by
  intro node x hnode a
  rw [fix, fix, ← hnode.height_eq]
  exact faithful_unfold h node.height hnode a

end Reader

/-! ## The members of an object -/

/-- The entries of an undamaged object, in its order. -/
inductive Members.Lists : Members → List (String × Node) → Prop where
  | nil (stop : Nat) : Members.Lists (.closed stop) []
  | cons {rest : Members} {es : List (String × Node)} (h : Members.Lists rest es) (key : String)
      (keySettle : Nat) (value : Node) (settle : Nat) :
      Members.Lists (.more (.ok key) keySettle value settle rest) ((key, value) :: es)

theorem Members.lists_ofList (es : List (String × Node)) : (Members.ofList es).Lists es := by
  induction es with
  | nil => exact .nil 0
  | cons e es ih => exact .cons ih e.1 0 e.2 0

theorem Members.Mirror.exists_lists {found : Members} {xs : List (String × Json)}
    (h : found.Mirror xs) : ∃ es, found.Lists es ∧ es.map (·.1) = xs.map (·.1)
      ∧ List.Forall₂ (fun e x => e.1 = x.1 ∧ e.2.Mirrors x.2) es xs := by
  induction xs generalizing found with
  | nil =>
    cases h with
    | nil stop => exact ⟨[], .nil stop, rfl, .nil⟩
  | cons x xs ih =>
    cases h with
    | cons hvalue hrest key keySettle settle =>
      obtain ⟨es, hes, hkeys, hxs⟩ := ih hrest
      exact ⟨_, .cons hes key keySettle _ settle, by simp [hkeys], .cons ⟨rfl, hvalue⟩ hxs⟩

/-- What two keys of a record store does not depend on which of them comes first. -/
def Slot.Apart (slot slot' : Slot σ) : Prop :=
  ∀ node node' store store', slot.read node = .ok store → slot'.read node' = .ok store' →
    ∀ s, store (store' s) = store' (store s)

instance : Std.Symm (@Slot.Apart σ) where
  symm _ _ h node node' store store' hstore hstore' s :=
    (h node' node store' store hstore' hstore s).symm

/-- Values that go into places apart. -/
theorem Slot.apart_of_map {key key' : String} {p p' : Presence} {r : Reader α} {r' : Reader β}
    {f : α → σ → σ} {f' : β → σ → σ} (h : ∀ a b s, f a (f' b s) = f' b (f a s)) :
    Slot.Apart ⟨key, p, r.map f⟩ ⟨key', p', r'.map f'⟩ := by
  intro node node' store store' hstore hstore' s
  obtain ⟨a, _, rfl⟩ := map_eq_ok.mp hstore
  obtain ⟨b, _, rfl⟩ := map_eq_ok.mp hstore'
  exact h a b s

namespace Reader

/-- From a record, the entries of an object lead to a result, whatever keys may be missing. -/
inductive Stores (slots : List (Slot σ)) : σ → List (String × Node) → σ → Prop where
  | nil (record : σ) : Stores slots record [] record
  | other {key : String} {value : Node} {es : List (String × Node)} {record result : σ}
      (hslot : slots.find? (·.key = key) = none) (hrest : Stores slots record es result) :
      Stores slots record ((key, value) :: es) result
  | store {key : String} {value : Node} {es : List (String × Node)} {record result : σ}
      {slot : Slot σ} {store : σ → σ} (hslot : slots.find? (·.key = key) = some slot)
      (hread : slot.read value = .ok store) (hrest : Stores slots (store record) es result) :
      Stores slots record ((key, value) :: es) result

variable {slots : List (Slot σ)} {seen : List String} {record result : σ} {found : Members}
  {es es' : List (String × Node)}

/-- The members of an object with distinct keys are read as a record if none of the required keys is
missing and the entries lead there. -/
theorem recordMembers_eq_ok_iff (h : found.Lists es) (hkeys : (es.map (·.1)).Nodup)
    (hnew : ∀ key ∈ seen, key ∉ es.map (·.1)) (hskip : found.skip = .ok ()) :
    recordMembers slots seen record found = .ok result ↔
      (∀ slot ∈ slots, slot.presence = .required → slot.key ∈ seen ∨ slot.key ∈ es.map (·.1))
        ∧ Stores slots record es result := by
  induction h generalizing seen record with
  | nil stop =>
    have hstores : Stores slots record [] result ↔ record = result :=
      ⟨fun h => by cases h; rfl, fun h => h ▸ .nil record⟩
    simp [recordMembers_closed_eq_ok, missing?_eq_none, hstores]
  | @cons rest es _ key keySettle value settle ih =>
    obtain ⟨hkey, hkeys⟩ := List.nodup_cons.mp hkeys
    obtain ⟨_, hvalue, hskip⟩ := bind_eq_ok.mp hskip
    obtain ⟨hseen, hnew⟩ : key ∉ seen ∧ ∀ k ∈ seen, k ∉ es.map (·.1) :=
      ⟨fun h => hnew key h List.mem_cons_self, fun k hk h => hnew k hk (List.mem_cons_of_mem _ h)⟩
    have hnew' : ∀ k ∈ key :: seen, k ∉ es.map (·.1) := List.forall_mem_cons.mpr ⟨hkey, hnew⟩
    rw [recordMembers_more_eq_ok]
    constructor
    · rintro (⟨hnone, -, hrest⟩ | ⟨slot, store, hslot, -, hread, hrest⟩)
      · obtain ⟨hrequired, hstores⟩ := (ih hkeys hnew hskip).mp hrest
        exact ⟨by grind, .other hnone hstores⟩
      · obtain ⟨hrequired, hstores⟩ := (ih hkeys hnew' hskip).mp hrest
        exact ⟨by grind, .store hslot hread hstores⟩
    · rintro ⟨hrequired, hstores⟩
      cases hstores with
      | other hnone hstores =>
        refine .inl ⟨hnone, hvalue, (ih hkeys hnew hskip).mpr ⟨?_, hstores⟩⟩
        grind
      | store hslot hread hstores =>
        refine .inr ⟨_, _, hslot, hseen, hread, (ih hkeys hnew' hskip).mpr ⟨?_, hstores⟩⟩
        grind

/-- The order of entries with distinct keys does not matter if the keys store apart. -/
theorem Stores.perm (hslots : slots.Pairwise Slot.Apart) (hperm : es.Perm es')
    (hkeys : (es.map (·.1)).Nodup) (h : Stores slots record es result) :
    Stores slots record es' result := by
  induction hperm generalizing record with
  | nil => exact h
  | cons e _ ih =>
    obtain ⟨-, htail⟩ := List.nodup_cons.mp hkeys
    cases h with
    | other hslot hrest => exact .other hslot (ih htail hrest)
    | store hslot hread hrest => exact .store hslot hread (ih htail hrest)
  | swap e e' es =>
    have hne : e'.1 ≠ e.1 := by simp at hkeys; grind
    cases h with
    | other hslot hrest =>
      cases hrest with
      | other hslot' hrest => exact .other hslot' (.other hslot hrest)
      | store hslot' hread' hrest => exact .store hslot' hread' (.other hslot hrest)
    | @store _ _ _ _ _ slot store hslot hread hrest =>
      cases hrest with
      | other hslot' hrest => exact .other hslot' (.store hslot hread hrest)
      | @store _ _ _ _ _ slot' store' hslot' hread' hrest =>
        have hapart : slot.Apart slot' := by
          refine hslots.forall (List.mem_of_find?_eq_some hslot)
            (List.mem_of_find?_eq_some hslot') ?_
          rintro rfl
          have hkey := List.find?_some hslot
          have hkey' := List.find?_some hslot'
          simp_all
        rw [← hapart _ _ _ _ hread hread' record] at hrest
        exact .store hslot' hread' (.store hslot hread hrest)
  | trans h₁ _ ih ih' => exact ih' ((h₁.map _).nodup_iff.mp hkeys) (ih hkeys h)

/-- Entries whose values store the same. -/
theorem Stores.of_forall₂ (hes : List.Forall₂ (fun e e' => e.1 = e'.1 ∧
      ∀ slot ∈ slots, ∀ store, slot.read e.2 = .ok store → slot.read e'.2 = .ok store) es es')
    (h : Stores slots record es result) : Stores slots record es' result := by
  induction hes generalizing record with
  | nil => exact h
  | cons he _ ih =>
    cases h with
    | @other key value _ _ _ hslot hrest =>
      obtain ⟨rfl, -⟩ : key = _ ∧ _ := he
      exact .other hslot (ih hrest)
    | @store key value _ _ _ slot store hslot hread hrest =>
      obtain ⟨rfl, hread'⟩ : key = _ ∧ _ := he
      exact .store hslot (hread' slot (List.mem_of_find?_eq_some hslot) store hread) (ih hrest)

/-- An object is read as a record in the order of the text as it is read in sorted order. -/
theorem recordMembers_ofJson (hread : ∀ slot ∈ slots, slot.read.Faithful)
    (hslots : slots.Pairwise Slot.Apart) {xs : List (String × Json)} (hfound : found.Mirror xs)
    (hkeys : (xs.map (·.1)).Nodup) : recordMembers slots [] record found = .ok result ↔
      recordMembers slots [] record
        (.ofList ((sortedEntries xs).map fun e => (e.1, Node.ofJson e.2))) = .ok result := by
  obtain ⟨es, hlists, hes, hmirrors⟩ := hfound.exists_lists
  let inText := xs.map fun e => (e.1, Node.ofJson e.2)
  let inMemory := (sortedEntries xs).map fun e => (e.1, Node.ofJson e.2)
  have hperm : inText.Perm inMemory := ((sortedEntries_perm hkeys).map _).symm
  have hinText : inText.map (·.1) = xs.map (·.1) := by simp [inText]
  have hinMemory : (inMemory.map (·.1)).Nodup := (hperm.map _).nodup_iff.mp (hinText ▸ hkeys)
  have hstores : Stores slots record es result ↔ Stores slots record inMemory result := by
    constructor
    · intro h
      refine (h.of_forall₂ (List.forall₂_map_right_iff.mpr ?_)).perm hslots hperm (hinText ▸ hkeys)
      exact hmirrors.imp fun e x ⟨hkey, h⟩ =>
        ⟨hkey, fun slot hslot store => (hread slot hslot h store).mp⟩
    · intro h
      refine (h.perm hslots hperm.symm hinMemory).of_forall₂ (List.forall₂_map_left_iff.mpr ?_)
      exact hmirrors.flip.imp fun x e ⟨hkey, h⟩ =>
        ⟨hkey.symm, fun slot hslot store => (hread slot hslot h store).mpr⟩
  have hmem : ∀ key, key ∈ es.map (·.1) ↔ key ∈ inMemory.map (·.1) := fun key => by
    rw [hes, ← hinText, (hperm.map _).mem_iff]
  have hskip : (Members.ofList inMemory).skip = .ok () :=
    Members.skip_of_values (Members.values_ofList fun e _ => Node.value_ofJson e.2)
  rw [recordMembers_eq_ok_iff hlists (hes ▸ hkeys) (by simp)
      (Members.skip_of_values hfound.hold.values_eq),
    recordMembers_eq_ok_iff (Members.lists_ofList _) hinMemory (by simp) hskip, hstores]
  simp only [hmem]

/-! ## The elements of an array -/

theorem recordItems_ofJson {name : String} {size : Nat} (hread : ∀ slot ∈ slots, slot.read.Faithful)
    {found : Items} {xs : List Json} (hfound : found.Mirror xs) (index index' count : Nat)
    (record result : σ) : recordItems name size index record slots found = .ok result ↔
      recordItems name size index' record slots (Items.ofJson count xs) = .ok result := by
  induction slots generalizing found xs index index' record with
  | nil => simp [recordItems]
  | cons slot slots ih =>
    obtain ⟨hslot, hslots⟩ := List.forall_mem_cons.mp hread
    cases hfound with
    | nil stop =>
      simp only [Items.ofJson, recordItems]
      split
      · exact ih hslots (.nil stop) (index + 1) (index' + 1) record
      · simp
    | cons hvalue hrest settle hsurplus =>
      simp only [Items.ofJson, recordItems_more_eq_ok, hslot hvalue,
        ih hslots hrest (index + 1) (index' + 1), hsurplus]
      simp

theorem faithful_record {name : String} {blank : σ} (hread : ∀ slot ∈ slots, slot.read.Faithful)
    (hslots : slots.Pairwise Slot.Apart) : (Reader.record name slots blank).Faithful := by
  intro node x hnode result
  cases hnode with
  | scalar s _ => simp [Reader.record]
  | list hfound _ =>
    rw [Node.ofJson]
    exact recordItems_ofJson hread hfound 0 0 _ blank result
  | object hfound hkeys _ =>
    rw [Node.ofJson_object]
    exact recordMembers_ofJson hread hslots hfound hkeys

end Reader

end FormRules.Json
