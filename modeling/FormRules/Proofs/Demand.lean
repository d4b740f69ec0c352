-- SUMMARY: The keys that reading a document asks for, and that it fails at the first one missing.
import Mathlib.Data.List.Forall2
import FormRules.Layout.Validation
import FormRules.Proofs.Success

/-!
# Demands

What reads a document asks its objects for keys, one after the other, and fails at the first one
that is missing. `Reads demands post c` says this of a computation `c`: it asks for `demands` in
their order, and when all of them are met it yields what `post` describes. Such a fact is built up
along the computation, by one rule for each way in which steps are joined.
-/

namespace FormRules

/-- A key that the object at a path is asked for, and whether the object has it. -/
structure Demand where
  path : Path
  key : String
  met : Bool
  deriving DecidableEq, Repr

/-- The error of a demand that is not met. -/
def Demand.error (d : Demand) : LayoutError := .missingKey d.key d.path

/-- The first of some demands that is not met. -/
def firstUnmet? (demands : List Demand) : Option Demand := demands.find? (!·.met)

theorem firstUnmet?_eq_none {demands : List Demand} :
    firstUnmet? demands = none ↔ ∀ d ∈ demands, d.met = true := by
  simp [firstUnmet?]

theorem firstUnmet?_append (demands others : List Demand) :
    firstUnmet? (demands ++ others) = (firstUnmet? demands).or (firstUnmet? others) :=
  List.find?_append

/-- The demands on the elements of a list are met when those on each element are. -/
theorem met_of_elements {α : Type} {asks : Nat → α → List Demand} {P : α → Prop}
    (h : ∀ i x, (∀ d ∈ asks i x, d.met = true) ↔ P x) (index : Nat) (xs : List α) :
    (∀ d ∈ (xs.zipIdx index).flatMap fun (x, i) => asks i x, d.met = true) ↔ ∀ x ∈ xs, P x := by
  induction xs generalizing index with
  | nil => simp
  | cons x rest ih =>
    rw [List.zipIdx_cons, List.flatMap_cons, List.forall_mem_append, List.forall_mem_cons, h, ih]

/-- A computation asks for some keys in their order. If all are there it yields what `post`
describes, otherwise the error of the first that is missing. -/
def Reads (demands : List Demand) (post : α → Prop) (c : Except LayoutError α) : Prop :=
  match firstUnmet? demands with
  | none => ∃ y, c = .ok y ∧ post y
  | some d => c = .error d.error

namespace Reads

variable {α β : Type} {demands others : List Demand} {P : α → Prop} {Q : β → Prop}
  {c : Except LayoutError α}

/-! ## Rules -/

theorem ok {x : α} (h : P x) : Reads [] P (.ok x) := ⟨x, rfl, h⟩

theorem require (value : Option α) (path : Path) (key : String) :
    Reads [⟨path, key, value.isSome⟩] (fun x => value = some x) (require value path key) := by
  cases value with
  | none => exact rfl
  | some x => exact ⟨x, rfl, rfl⟩

theorem bind {k : α → Except LayoutError β} (hc : Reads demands P c)
    (hk : ∀ x, P x → Reads others Q (k x)) : Reads (demands ++ others) Q (c >>= k) := by
  unfold Reads at hc ⊢
  rw [firstUnmet?_append]
  cases hd : firstUnmet? demands with
  | none =>
    rw [hd] at hc
    obtain ⟨x, rfl, hx⟩ := hc
    exact hk x hx
  | some d =>
    rw [hd] at hc
    rw [hc]
    rfl

/-- A key that is asked for first comes before what is asked for with its value at hand. -/
theorem require_bind {value : Option α} {path : Path} {key : String}
    {k : α → Except LayoutError β} (hk : ∀ x, value = some x → Reads others Q (k x)) :
    Reads (⟨path, key, value.isSome⟩ :: others) Q (FormRules.require value path key >>= k) :=
  (require value path key).bind hk

/-- A last step that cannot fail asks for nothing more. -/
theorem bind_ok {f : α → β} (hc : Reads demands P c) (hf : ∀ x, P x → Q (f x)) :
    Reads demands Q (c >>= fun x => .ok (f x)) := by
  have h := hc.bind fun x hx => ok (hf x hx)
  rwa [List.append_nil] at h

theorem map {f : α → β} (hc : Reads demands P c) (hf : ∀ x, P x → Q (f x)) :
    Reads demands Q (c.map f) := by
  have hbind : c.map f = c >>= fun x => .ok (f x) := by cases c <;> rfl
  rw [hbind]
  exact hc.bind_ok hf

/-- A check of all elements of an array asks each for what the check asks, in their order. -/
theorem checkAll {check : Path → α → Except LayoutError β} {path : Path}
    {asks : Nat → α → List Demand} {R : α → β → Prop}
    (h : ∀ i x, Reads (asks i x) (R x) (check (path.index i) x)) (index : Nat) (xs : List α) :
    Reads ((xs.zipIdx index).flatMap fun (x, i) => asks i x) (List.Forall₂ R xs)
      (checkAll check path index xs) := by
  induction xs generalizing index with
  | nil => exact ok .nil
  | cons x rest ih =>
    rw [List.zipIdx_cons, List.flatMap_cons]
    apply (h index x).bind
    intro y hy
    exact (ih (index + 1)).bind_ok fun ys hys => List.Forall₂.cons hy hys

/-! ## What follows -/

/-- It yields something exactly when all demands are met. -/
theorem succeeds_iff (h : Reads demands P c) : (∃ x, c = .ok x) ↔ ∀ d ∈ demands, d.met = true := by
  rw [← firstUnmet?_eq_none]
  unfold Reads at h
  cases hd : firstUnmet? demands with
  | none =>
    rw [hd] at h
    obtain ⟨x, rfl, _⟩ := h
    simp
  | some d =>
    rw [hd] at h
    simp [h]

theorem post_of_eq_ok (h : Reads demands P c) {x : α} (hc : c = .ok x) : P x := by
  subst hc
  have hmet := firstUnmet?_eq_none.mpr (h.succeeds_iff.mp ⟨x, rfl⟩)
  unfold Reads at h
  rw [hmet] at h
  obtain ⟨y, hy, hx⟩ := h
  cases hy
  exact hx

theorem firstUnmet?_of_eq_error (h : Reads demands P c) {e : LayoutError} (hc : c = .error e) :
    ∃ d, firstUnmet? demands = some d ∧ e = d.error := by
  unfold Reads at h
  cases hd : firstUnmet? demands with
  | none =>
    rw [hd, hc] at h
    obtain ⟨_, hx, _⟩ := h
    cases hx
  | some d =>
    rw [hd, hc] at h
    cases h
    exact ⟨d, rfl, rfl⟩

end Reads

/-- Lists that are related part by part are related as a whole. -/
theorem forall₂_flatten {α β γ : Type} {R : β → γ → Prop} {parts : α → List β} {xs : List α}
    {yss : List (List γ)} (h : List.Forall₂ (fun x ys => List.Forall₂ R (parts x) ys) xs yss) :
    List.Forall₂ R (xs.flatMap parts) yss.flatten :=
  List.rel_flatten (List.forall₂_map_left_iff.mpr h)

end FormRules
