-- SUMMARY: Extraction does not see what it does not read.
import FormRules.Extraction
import FormRules.Proofs.Pointwise
import FormRules.Proofs.Success

/-!
# Layouts that agree on what is read

What extraction reads of a layout depends on the layout: of a field that is not accepted only the
data type, of a choice without maps nothing at all, and of maps nothing if they are ignored.
`Extractor.LayoutsAgree` relates layouts with the same sections and fields that agree on all that is
read. Such layouts have the same rules or the same error. Two runs on them are compared function by
function, from the choices that a map lists up to the layouts.
-/

namespace FormRules

/-! ## What is read -/

/-- Choices that maps list agree in their field and their value. -/
structure Choice.AgreesAsDependent (c d : Choice) : Prop where
  apiName : c.apiName = d.apiName
  actualValue : c.actualValue = d.actualValue

/-- Maps agree on what is read of them. Only a map that shows or hides something is asked for its
target, which is its `id` if it has no name. Otherwise its name is read only for choices that have
no field of their own. -/
structure FieldMap.Agrees (m n : FieldMap) : Prop where
  visible : m.visible = n.visible
  apiName : (m.visible.isSome ∨ ∃ d ∈ m.dependents, d.apiName = none) → m.apiName = n.apiName
  id : m.visible.isSome → m.apiName = none → m.id = n.id
  dependents : List.Forall₂ Choice.AgreesAsDependent m.dependents n.dependents

namespace Extractor

variable (x : Extractor)

/-- Choices agree on what is read of them: whether they have maps and, if they have, their value and
those maps that are to be effects. -/
structure ChoicesAgree (c d : Choice) : Prop where
  maps : Option.Rel (fun ms ns => x.policy = .fulfill → List.Forall₂ FieldMap.Agrees ms ns)
    c.maps d.maps
  actualValue : c.hasMaps = true → c.actualValue = d.actualValue

/-- Fields agree on what is read of them: their data type and, if it is accepted, their choices.
Their names are read only if a choice has maps. -/
structure FieldsAgree (f g : Field) : Prop where
  dataType : f.dataType = g.dataType
  choices : x.accepts f = true → Option.Rel (List.Forall₂ x.ChoicesAgree) f.choices g.choices
  apiName : x.accepts f = true → (∃ c ∈ f.choiceList, c.hasMaps = true) → f.apiName = g.apiName

/-- Layouts have the same sections and the same fields at the same positions, and these agree on
what is read of them. -/
def LayoutsAgree (l l' : Layout) : Prop :=
  List.Forall₂ (fun s t => List.Forall₂ x.FieldsAgree s.fields t.fields) l.sections l'.sections

end Extractor

/-! ## Two runs -/

/-- Checks that agree on corresponding elements agree on the lists. -/
theorem checkAll_congr {α β γ : Type} {R : α → β → Prop} {check : Path → α → Except LayoutError γ}
    {check' : Path → β → Except LayoutError γ} {xs : List α} {ys : List β}
    (h : List.Forall₂ R xs ys) (hcheck : ∀ a ∈ xs, ∀ b, R a b → ∀ p, check p a = check' p b)
    (path : Path) (index : Nat) : checkAll check path index xs = checkAll check' path index ys := by
  induction h generalizing index with
  | nil => rfl
  | cons hab _ ih =>
    obtain ⟨ha, hrest⟩ := List.forall_mem_cons.mp hcheck
    rw [checkAll, checkAll, ha _ hab, ih hrest]

namespace FieldMap.Agrees

variable {m n : FieldMap}

theorem visibilityEffects_eq (h : m.Agrees n) : m.visibilityEffects = n.visibilityEffects := by
  unfold visibilityEffects
  rw [← h.visible]
  cases hvisible : m.visible with
  | none => rfl
  | some visible =>
    have hname : m.apiName = n.apiName := h.apiName (.inl (by simp [hvisible]))
    have htarget : m.visibilityTarget? = n.visibilityTarget? := by
      unfold visibilityTarget?
      rw [← hname]
      cases hm : m.apiName with
      | some apiName => rfl
      | none => rw [h.id (by simp [hvisible]) hm]
    rw [htarget]

theorem allowEffect_eq (h : m.Agrees n) {c d : Choice} (hc : c ∈ m.dependents)
    (hcd : c.AgreesAsDependent d) (path : Path) : m.allowEffect path c = n.allowEffect path d := by
  have hname : c.apiName.or m.apiName = d.apiName.or n.apiName := by
    rw [← hcd.apiName]
    cases hown : c.apiName with
    | some apiName => rfl
    | none => rw [h.apiName (.inr ⟨c, hc, hown⟩)]
  rw [allowEffect, allowEffect, hname, hcd.actualValue]

theorem effects_eq (h : m.Agrees n) (path : Path) : m.effects path = n.effects path := by
  rw [effects, effects, h.visibilityEffects_eq,
    checkAll_congr h.dependents fun c hc d hcd => h.allowEffect_eq hc hcd]

end FieldMap.Agrees

namespace Extractor

variable {x : Extractor}

theorem effects_congr {ms ns : List FieldMap}
    (h : x.policy = .fulfill → List.Forall₂ FieldMap.Agrees ms ns) (path : Path) :
    x.effects path ms = x.effects path ns := by
  unfold effects
  cases hpolicy : x.policy with
  | ignore => rfl
  | fulfill => rw [checkAll_congr (h hpolicy) fun m _ n hmn => hmn.effects_eq]

theorem ChoicesAgree.rules_eq {c d : Choice} (h : x.ChoicesAgree c d) {f g : Field}
    (hname : c.hasMaps = true → f.apiName = g.apiName) (fieldPath path : Path) :
    x.choiceRules fieldPath f path c = x.choiceRules fieldPath g path d := by
  unfold choiceRules
  obtain ⟨hc, hd⟩ | ⟨ms, ns, hc, hd, hmaps⟩ := rel_cases h.maps
  · rw [hc, hd]
  · have hhas : c.hasMaps = true := by simp [Choice.hasMaps, hc]
    simp only [hc, hd, hname hhas, h.actualValue hhas, effects_congr hmaps path]

theorem FieldsAgree.rules_eq {f g : Field} (h : x.FieldsAgree f g) (path : Path) :
    x.fieldRules path f = x.fieldRules path g := by
  have haccepts : x.accepts f = x.accepts g := by rw [accepts, accepts, h.dataType]
  unfold fieldRules
  rw [← haccepts]
  cases ha : x.accepts f with
  | false => rfl
  | true =>
    obtain ⟨hf, hg⟩ | ⟨cs, ds, hf, hg, hcs⟩ := rel_cases (h.choices ha)
    · rw [hf, hg]
      rfl
    · have hrules : ∀ c ∈ cs, ∀ d, x.ChoicesAgree c d → ∀ p,
          x.choiceRules path f p c = x.choiceRules path g p d := by
        intro c hc d hcd p
        have hlist : c ∈ f.choiceList := by simpa [Field.choiceList, hf] using hc
        exact hcd.rules_eq (fun hhas => h.apiName ha ⟨c, hlist, hhas⟩) path p
      simp only [hf, hg, require_some, ok_bind, checkAll_congr hcs hrules]

end Extractor

/-- Layouts that agree on all that extraction reads have the same rules or the same error, whatever
else there is in them. -/
theorem agreeing_layouts_are_extracted_alike {x : Extractor} {l l' : Layout}
    (h : x.LayoutsAgree l l') : x.extract l = x.extract l' := by
  have hsection : ∀ s t : Section, List.Forall₂ x.FieldsAgree s.fields t.fields → ∀ path,
      x.sectionRules path s = x.sectionRules path t := by
    intro s t hst path
    rw [Extractor.sectionRules, Extractor.sectionRules,
      checkAll_congr hst fun f _ g hfg => hfg.rules_eq]
  rw [Extractor.extract, Extractor.extract, checkAll_congr h fun s _ t => hsection s t]

/-- Of the first field only the data type is read, of the second one nothing but that its choice has
no maps. Of the maps, one is asked for the section that it hides and the other one for its field. -/
theorem agreeing_layouts_are_extracted_alike_of_country :
    let customs : FieldMap := { id := some "customs", visible := some false }
    let berlin : Choice := { actualValue := some "Berlin" }
    let choice : Choice := {
      actualValue := some "DE"
      maps := some [customs, { apiName := some "city", choices := some [berlin] }] }
    let other : Choice := {
      actualValue := some "DE", displayValue := some "Germany"
      maps := some [customs, {
        apiName := some "city", id := some "main"
        choices := some [{ berlin with displayValue := some "Berlin", maps := some [] }] }] }
    let country (c : Choice) : Field := {
      apiName := some "country", dataType := "pick_list", choices := some [c] }
    let layout : Layout := {
      sections := [{ fields := [{ dataType := "text" },
        { dataType := "pick_list", choices := some [{}] }, country choice] }] }
    let layout' : Layout := {
      sections := [{ id := some "main", fields := [
        { apiName := some "note", dataType := "text", required := true, choices := some [choice] },
        { apiName := some "kind", dataType := "pick_list", choices := some [berlin] },
        country other] }] }
    let x : Extractor := { policy := .fulfill }
    x.LayoutsAgree layout layout' ∧ x.extract layout = x.extract layout'
      ∧ x.extract layout' = .ok [{
        condition := .is "country" "DE"
        fulfilled := [.setVisible false (.ofSection "customs"), .allow "city" "Berlin"] }] := by
  intro customs berlin choice other country layout layout' x
  have hmapped : x.ChoicesAgree choice other := {
    maps := .some fun _ => .cons ⟨rfl, fun _ => rfl, fun _ _ => rfl, .nil⟩
      (.cons ⟨rfl, fun _ => rfl, nofun, .cons ⟨rfl, rfl⟩ .nil⟩ .nil)
    actualValue := fun _ => rfl }
  have hunmapped : x.ChoicesAgree {} berlin := ⟨.none, nofun⟩
  have hagree : x.LayoutsAgree layout layout' := by
    refine .cons (.cons ?note (.cons ?kind (.cons ?country .nil))) .nil
    case note => exact ⟨rfl, nofun, nofun⟩
    case kind =>
      refine ⟨rfl, fun _ => .some (.cons hunmapped .nil), fun _ hmaps => ?_⟩
      simp [Field.choiceList, Choice.hasMaps] at hmaps
    case country => exact ⟨rfl, fun _ => .some (.cons hmapped .nil), fun _ _ => rfl⟩
  exact ⟨hagree, agreeing_layouts_are_extracted_alike hagree, rfl⟩

end FormRules
