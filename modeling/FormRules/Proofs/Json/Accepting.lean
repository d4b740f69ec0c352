-- SUMMARY: Rules for readers: what they accept when their parts do, and what they refuse.
import FormRules.Json.Reader
import FormRules.Proofs.Json.Parsing

/-!
# What readers accept

A reader accepts a value if it turns every node that holds the value into the same result. There is
one rule for each way in which readers are put together. The height of the nodes is bounded, so that
a reader that uses itself on the parts of a node can be followed down by induction.
-/

namespace FormRules.Json

variable {α β σ : Type} {n : Nat} {j x : Json} {a : α}

namespace Reader

/-- A reader turns every node of at most a height that holds `j` into `a`. -/
def Accepts (r : Reader α) (n : Nat) (j : Json) (a : α) : Prop :=
  ∀ node : Node, node.Holds j → node.height ≤ n → r node = .ok a

/-- A reader fails on every node that holds `j`. -/
def Refuses (r : Reader α) (j : Json) : Prop :=
  ∀ node : Node, node.Holds j → ∃ f, r node = .error f

/-! ## Single values -/

theorem Accepts.mono {r : Reader α} {m : Nat} (h : r.Accepts n j a) (hm : m ≤ n) :
    r.Accepts m j a :=
  fun node hnode hheight => h node hnode (Nat.le_trans hheight hm)

theorem accepts_text (n : Nat) (s : String) : text.Accepts n (.text s) s := by
  intro node hnode _
  obtain ⟨stop, rfl⟩ := hnode.eq_text
  rfl

theorem accepts_bool (n : Nat) (b : Bool) : bool.Accepts n (.bool b) b := by
  intro node hnode _
  cases hnode with
  | @scalar s _ h _ => cases s <;> cases h; rfl

/-- A sorted value is read as it is. -/
theorem accepts_any (n : Nat) {x : Json} (hx : x.sorted = x) : any.Accepts n x x := by
  intro node hnode _
  rw [any, hnode.value_eq, hx]

theorem Accepts.map {r : Reader α} (h : r.Accepts n j a) (f : α → β) :
    (r.map f).Accepts n j (f a) := by
  intro node hnode hheight
  simp [Reader.map, h node hnode hheight]

theorem Refuses.map {r : Reader α} (h : r.Refuses j) (f : α → β) : (r.map f).Refuses j := by
  intro node hnode
  obtain ⟨failure, hfailure⟩ := h node hnode
  exact ⟨failure, by simp [Reader.map, hfailure]⟩

/-- A value other than `null` is read as if it had to be there. -/
theorem Accepts.optional {r : Reader α} (h : r.Accepts n j a) (hj : j ≠ .null) :
    (optional r).Accepts n j (some a) := by
  intro node hnode hheight
  have hread := h node hnode hheight
  unfold Reader.optional
  split
  · cases hnode with
    | scalar hscalar => exact absurd hscalar.symm hj
  · simp [hread]

theorem accepts_null (r : Reader α) (n : Nat) : (optional r).Accepts n .null none := by
  intro node hnode _
  cases hnode with
  | @scalar s _ h _ => cases s <;> cases h; rfl

/-! ## Lists -/

theorem items_eq_ok {r : Reader α} {toJson : α → Json} {as : List α}
    (h : ∀ a ∈ as, r.Accepts n (toJson a) a) {found : Items} (hfound : found.Hold (as.map toJson))
    (hheight : found.height ≤ n) (index : Nat) : r.items index found = .ok as := by
  induction as generalizing found index with
  | nil =>
    cases hfound with
    | nil => rfl
  | cons a as ih =>
    obtain ⟨ha, has⟩ := List.forall_mem_cons.mp h
    cases hfound with
    | cons hvalue hrest =>
      obtain ⟨hhead, htail⟩ := Nat.max_le.mp hheight
      simp [Reader.items, part, ha _ hvalue hhead, ih has hrest htail]

theorem accepts_list {r : Reader α} {toJson : α → Json} {as : List α}
    (h : ∀ a ∈ as, r.Accepts n (toJson a) a) :
    (list r).Accepts (n + 1) (.list (as.map toJson)) as := by
  intro node hnode hheight
  obtain ⟨start, found, rfl, hfound⟩ := hnode.eq_list
  exact items_eq_ok h hfound (Nat.le_of_succ_le_succ hheight) 0

/-! ## Alternatives -/

variable {first second : Reader α} {name : String}

theorem accepts_either_first (h : first.Accepts n j a) : (either name first second).Accepts n j a := by
  intro node hnode hheight
  obtain ⟨v, hv⟩ := hnode.exists_value
  simp [either, hv, h node hnode hheight]

theorem accepts_either_second (hfirst : first.Refuses j) (h : second.Accepts n j a) :
    (either name first second).Accepts n j a := by
  intro node hnode hheight
  obtain ⟨v, hv⟩ := hnode.exists_value
  obtain ⟨f, hf⟩ := hfirst node hnode
  simp [either, hv, hf, h node hnode hheight]

/-! ## Recursion -/

theorem accepts_fix {step : Reader α → Reader α} (h : ∀ n, (unfold step n).Accepts n j a) (n : Nat) :
    (fix step).Accepts n j a :=
  fun node hnode _ => h node.height node hnode (Nat.le_refl _)

/-! ## Records -/

variable {slots : List (Slot σ)} {seen : List String} {record result : σ}
  {es : List (String × Json)} {key : String}

/-- From a record of which the keys `seen` are read already, the entries `es` lead to `result`. -/
def Fills (slots : List (Slot σ)) (n : Nat) (seen : List String) (record : σ)
    (es : List (String × Json)) (result : σ) : Prop :=
  ∀ found : Members, found.Hold es → found.height ≤ n →
    recordMembers slots seen record found = .ok result

theorem fills_nil (h : missing? slots seen = none) : Fills slots n seen record [] record := by
  intro found hfound _
  cases hfound with
  | nil stop => simp [recordMembers, h]

theorem fills_cons {slot : Slot σ} {store : σ → σ} (hslot : slots.find? (·.key = key) = some slot)
    (hnew : key ∉ seen) (hread : slot.read.Accepts n x store)
    (hrest : Fills slots n (key :: seen) (store record) es result) :
    Fills slots n seen record ((key, x) :: es) result := by
  intro found hfound hheight
  cases hfound with
  | cons hvalue hmembers =>
    obtain ⟨hhead, htail⟩ := Nat.max_le.mp hheight
    simp [recordMembers, hslot, hnew, part, hread _ hvalue hhead,
      hrest _ hmembers htail]

/-- What is written for a value that may be absent stands for it: nothing for none, and otherwise
something other than `null` that is read as the value. -/
def Writes (r : Reader α) (n : Nat) : Option Json → Option α → Prop :=
  Option.Rel fun j a => j ≠ .null ∧ r.Accepts n j a

theorem writes_map {r : Reader α} {toJson : α → Json} {value : Option α}
    (h : ∀ a ∈ value, toJson a ≠ .null ∧ r.Accepts n (toJson a) a) :
    r.Writes n (value.map toJson) value := by
  cases value with
  | none => exact .none
  | some a => exact .some (h a rfl)

/-- A value of any shape is written as it stands. -/
theorem writes_any {value : Option Json} (h : ∀ x ∈ value, x ≠ .null ∧ x.sorted = x) :
    any.Writes n value value := by
  cases value with
  | none => exact .none
  | some x => exact .some ((h x rfl).imp_right (accepts_any n))

theorem writes_text (n : Nat) (value : Option String) : text.Writes n (value.map .text) value :=
  writes_map fun s _ => ⟨by simp, accepts_text n s⟩

theorem writes_bool (n : Nat) (value : Option Bool) : bool.Writes n (value.map .bool) value :=
  writes_map fun b _ => ⟨by simp, accepts_bool n b⟩

/-- The entries lead to the result if at most the keys `keys` are read already. -/
def FillsAfter (slots : List (Slot σ)) (n : Nat) (keys : List String) (record : σ)
    (es : List (String × Json)) (result : σ) : Prop :=
  ∀ seen, seen ⊆ keys → Fills slots n seen record es result

/-- A value under a key that may be left out. -/
theorem fillsAfter_entry {keys : List String} {slot : Slot σ} {r : Reader α}
    {store : Option α → σ → σ} {written : Option Json} {value : Option α}
    (hslot : slots.find? (·.key = key) = some slot) (hstore : slot.read = (optional r).map store)
    (hnew : key ∉ keys) (hvalue : r.Writes n written value) (hblank : store none record = record)
    (hrest : FillsAfter slots n (key :: keys) (store value record) es result) :
    FillsAfter slots n keys record ( Json.entry? key written ++ es) result := by
  intro seen hseen
  cases hvalue with
  | none =>
    rw [hblank] at hrest
    exact hrest seen (List.subset_cons_of_subset key hseen)
  | some h =>
    have hread := hstore ▸ (h.2.optional h.1).map store
    exact fills_cons hslot (fun hmem => hnew (hseen hmem)) hread
      (hrest _ (List.cons_subset_cons key hseen))

theorem accepts_record {name : String} {blank : σ} (h : Fills slots n [] blank es result) :
    (Reader.record name slots blank).Accepts (n + 1) (.object es) result := by
  intro node hnode hheight
  obtain ⟨start, found, rfl, hfound⟩ := hnode.eq_object
  exact h found hfound (Nat.le_of_succ_le_succ hheight)

/-- Without a required key no object is a record. -/
theorem exists_recordMembers_eq_error {slot : Slot σ} (hslot : slot ∈ slots)
    (hrequired : slot.presence = .required) (hkey : slot.key ∉ es.map (·.1)) (hseen : slot.key ∉ seen)
    {found : Members} (hfound : found.Hold es) :
    ∃ f, recordMembers slots seen record found = .error f := by
  induction es generalizing seen record found with
  | nil =>
    cases hfound with
    | nil stop =>
      obtain ⟨key, hmissing⟩ : ∃ key, missing? slots seen = some key := by
        refine Option.isSome_iff_exists.mp ?_
        simpa [missing?] using ⟨slot, hslot, hrequired, hseen⟩
      exact ⟨.placed (.missingKey key) stop, by simp [recordMembers, hmissing]⟩
  | cons e es ih =>
    obtain ⟨hne, hrest⟩ : slot.key ≠ e.1 ∧ slot.key ∉ es.map (·.1) := by simpa using hkey
    cases hfound with
    | @cons value _ rest _ _ hmembers key keySettle settle =>
      simp only [recordMembers]
      split
      · split
        · exact ⟨_, rfl⟩
        · exact ih hrest hseen hmembers
      · split
        · exact ⟨_, rfl⟩
        · cases hread : part _ _ value settle with
          | error f => exact ⟨f, rfl⟩
          | ok store => exact ih hrest (by simp [hne, hseen]) hmembers

theorem refuses_record {name : String} {blank : σ} {slot : Slot σ} (hslot : slot ∈ slots)
    (hrequired : slot.presence = .required) (hkey : slot.key ∉ es.map (·.1)) :
    (Reader.record name slots blank).Refuses (.object es) := by
  intro node hnode
  obtain ⟨start, found, rfl, hfound⟩ := hnode.eq_object
  exact exists_recordMembers_eq_error hslot hrequired hkey (by simp) hfound

/-! ## Texts -/

/-- What is written for a value, with blanks after it, is read as the result for that value. -/
theorem fromText_write {r : Reader α} (hr : ∀ n, r.Accepts n j a) (hj : j.Numberless)
    (hdepth : j.nesting ≤ deepestNesting) (pretty : Bool) {source : String} {b : List Char}
    (hb : Blanks b) (hsource : source.toList = (j.write pretty).toList ++ b) :
    r.fromText source = .ok a := by
  obtain ⟨hroot, hsurplus⟩ := Source.ofText_of_spells (spells_write hj pretty) hb hsource hdepth
  simp [fromText, hr _ _ hroot (Nat.le_refl _), hsurplus]

end Reader

end FormRules.Json
