-- SUMMARY: When the effects that a choice's maps are extracted to restate the maps.
import FormRules.Form.View
import FormRules.Proofs.Extraction.Completeness
import FormRules.Proofs.Form.OpenList

/-!
# Effects that restate maps

The maps of a choice can take effect twice: when the choice is made, and through the effects of the
rule that is extracted from it. The effects show and hide the same targets as the maps. What they
leave on offer may differ: an empty list has no effects, and the effects of neighbouring lists of
one field make a single list. Where the last list of a field stands for itself (`ListsAfresh`) both
ways leave the same choices on offer.
-/

namespace FormRules

/-! ## Plain maps -/

namespace FieldMap

/-- A map names its field, and every choice that it lists has a value and no field of its own. -/
structure IsPlain (m : FieldMap) : Prop where
  named : m.apiName.isSome
  valued : ∀ d ∈ m.dependents, d.actualValue.isSome ∧ d.apiName = none

/-- A map shows nothing, hides nothing, and lists nothing. -/
def IsSilent (m : FieldMap) : Prop := m.visible = none ∧ m.dependents = []

/-- The part of a map that shows or hides its field, as a map of its own. -/
def displayed (m : FieldMap) : List FieldMap :=
  (m.visible.map fun visible => { apiName := m.apiName, visible := some visible }).toList

theorem IsPlain.values_eq_nil {m : FieldMap} (h : m.IsPlain) : m.values = [] ↔ m.dependents = [] := by
  rw [values, List.filterMap_eq_nil_iff]
  constructor
  · intro hnone
    rw [List.eq_nil_iff_forall_not_mem]
    intro d hd
    simpa [hnone d hd] using (h.valued d hd).1
  · intro hnil
    simp [hnil]

end FieldMap

/-! ## The effects of a map -/

/-- The maps after the effects of one more map: it is shown or hidden by a map of its own, and then
its values are put one by one. -/
def restateAfter (maps : List FieldMap) (m : FieldMap) : List FieldMap :=
  allowAll (m.apiName.getD "") m.values (maps ++ m.displayed)

theorem addEffect_setVisible (maps : List FieldMap) (visible : Bool) (apiName : String) :
    addEffect maps (.setVisible visible (.ofField apiName))
      = maps ++ [{ apiName := some apiName, visible := some visible }] := by
  cases visible <;> rfl

theorem addEffect_allow (maps : List FieldMap) (apiName value : String) :
    addEffect maps (.allow apiName value) = allowLast apiName value maps := rfl

/-- The effects of a plain map amount to its restatement. -/
theorem FieldMap.IsPlain.foldl_addEffect {m : FieldMap} (h : m.IsPlain) {effects : List Call}
    (heffects : m.Declares effects) (maps : List FieldMap) :
    effects.foldl addEffect maps = restateAfter maps m := by
  obtain ⟨apiName, hname⟩ := Option.isSome_iff_exists.mp h.named
  obtain ⟨displays, allows, hdisplays, hallows, rfl⟩ := heffects
  have hdisplayed : displays.foldl addEffect maps = maps ++ m.displayed := by
    cases hdisplays with
    | silent hnone => simp [displayed, hnone]
    | aimless hnone => simp [hname] at hnone
    | area _ hnone => simp [hname] at hnone
    | field hvisible hfield => simp [displayed, hvisible, hfield, addEffect_setVisible]
  have hallowed : ∀ (ds : List Choice), (∀ d ∈ ds, d.actualValue.isSome ∧ d.apiName = none) →
      ∀ allows, List.Forall₂ m.Allows ds allows → ∀ maps,
        allows.foldl addEffect maps = allowAll apiName (ds.filterMap (·.actualValue)) maps := by
    intro ds hds allows hallows
    induction hallows with
    | nil => exact fun _ => rfl
    | @cons d effect ds allows hd _ ih =>
      obtain ⟨⟨_, hown⟩, hrest⟩ := List.forall_mem_cons.mp hds
      obtain ⟨field, value, hfield, hvalue, rfl⟩ := hd
      obtain rfl : apiName = field := by simpa [hown, hname] using hfield
      intro maps
      rw [List.foldl_cons, addEffect_allow, ih hrest]
      simp [hvalue]
  rw [List.foldl_append, hdisplayed, hallowed _ h.valued _ hallows, restateAfter, hname]
  rfl

/-- The effects of plain maps amount to their restatements, one after the other. -/
theorem effectMaps_flatten {maps : List FieldMap} (h : ∀ m ∈ maps, m.IsPlain)
    {parts : List (List Call)} (hparts : List.Forall₂ FieldMap.Declares maps parts) :
    effectMaps parts.flatten = maps.foldl restateAfter [] := by
  have hfold : ∀ acc, parts.flatten.foldl addEffect acc = maps.foldl restateAfter acc := by
    induction hparts with
    | nil => exact fun _ => rfl
    | @cons m part rest parts hm _ ih =>
      obtain ⟨hplain, hrest⟩ := List.forall_mem_cons.mp h
      intro acc
      rw [List.flatten_cons, List.foldl_append, hplain.foldl_addEffect hm, ih hrest,
        List.foldl_cons]
  exact hfold []

theorem openValues_displayed (maps : List FieldMap) (m : FieldMap) (field : String) :
    openValues (maps ++ m.displayed) field
      = if m.visible.isSome then [] else openValues maps field := by
  unfold FieldMap.displayed
  cases m.visible with
  | none => simp
  | some visible => simp [FieldMap.values, FieldMap.dependents]

theorem openValues_restateAfter (maps : List FieldMap) {m : FieldMap} {apiName : String}
    (hname : m.apiName = some apiName) (field : String) :
    openValues (restateAfter maps m) field
      = if apiName = field then openValues (maps ++ m.displayed) field ++ m.values
        else if m.values = [] then openValues (maps ++ m.displayed) field else [] := by
  rw [restateAfter, hname, Option.getD_some, openValues_allowAll]
  by_cases h : apiName = field <;> simp [h]

namespace Form

variable {f : Form} {s : FormState}

theorem visible?_restateAfter (f : Form) (s : FormState) (maps : List FieldMap) {m : FieldMap}
    {apiName : String} (hname : m.apiName = some apiName) (target : Target) :
    (f.applyMaps s (restateAfter maps m)).visible? target
      = if f.target? m = some target then m.visible.or ((f.applyMaps s maps).visible? target)
        else (f.applyMaps s maps).visible? target := by
  rw [restateAfter, visible?_allowAll, applyMaps_append]
  unfold FieldMap.displayed
  cases m.visible with
  | none => simp
  | some visible =>
    have htarget : f.target? { apiName := m.apiName, visible := some visible }
        = some (.field apiName) := target?_of_named hname
    have hm : f.target? m = some (.field apiName) := target?_of_named hname
    simp [visible?_applyMap, htarget, hm]

theorem choices?_restateAfter (f : Form) (s : FormState) (maps : List FieldMap) {m : FieldMap}
    {apiName : String} (hname : m.apiName = some apiName) (field : String) :
    (f.applyMaps s (restateAfter maps m)).choices? (.field field)
      = if apiName = field ∧ m.values ≠ [] then
          some (f.offering field (openValues (maps ++ m.displayed) field ++ m.values))
        else (f.applyMaps s maps).choices? (.field field) := by
  have hdisplayed : (f.applyMaps s (maps ++ m.displayed)).choices? (.field field)
      = (f.applyMaps s maps).choices? (.field field) := by
    rw [applyMaps_append]
    unfold FieldMap.displayed
    cases m.visible <;> simp [choices?_applyMap, mapChoices]
  rw [restateAfter, hname, Option.getD_some, choices?_allowAll, hdisplayed]
  split
  · next h => rw [h.1]
  · rfl

/-! ## What is shown -/

/-- The restatements of maps show and hide what the maps do. -/
theorem visible?_restated {maps : List FieldMap} (h : ∀ m ∈ maps, m.IsPlain) (s : FormState)
    (target : Target) :
    (f.applyMaps s (maps.foldl restateAfter [])).visible? target
      = (f.applyMaps s maps).visible? target := by
  induction maps using List.reverseRecOn with
  | nil => rfl
  | append_singleton maps m ih =>
    obtain ⟨hmaps, hm⟩ := List.forall_mem_append.mp h
    obtain ⟨apiName, hname⟩ := Option.isSome_iff_exists.mp (hm m (by simp)).named
    rw [List.foldl_append, List.foldl_cons, List.foldl_nil, visible?_restateAfter f s _ hname,
      ih hmaps, applyMaps_append, applyMaps_cons, applyMaps_nil, visible?_applyMap]

end Form

/-! ## What is on offer -/

/-- Some maps list nothing for a field. -/
def ListNothing (maps : List FieldMap) (apiName : String) : Prop :=
  ∀ m ∈ maps, m.apiName = some apiName → m.choices = none

/-- The last map of some that is not silent lists no choices of a field, so that an effect after
them makes a new list. -/
def LeavesClosed (maps : List FieldMap) (apiName : String) : Prop :=
  ∀ earlier m silent, maps = earlier ++ m :: silent → (∀ q ∈ silent, q.IsSilent) →
    m.apiName = some apiName → m.dependents = []

/-- A last map that is not silent and lists no choices of a field leaves no list of it open. -/
theorem LeavesClosed.concat (maps : List FieldMap) {m : FieldMap} {apiName : String}
    (hsilent : ¬ m.IsSilent) (hm : m.apiName = some apiName → m.dependents = []) :
    LeavesClosed (maps ++ [m]) apiName := by
  intro earlier last silent hsplit hall hname
  rcases List.eq_nil_or_concat silent with rfl | ⟨others, q, rfl⟩
  · obtain ⟨-, rfl⟩ : maps = earlier ∧ m = last := by simpa using hsplit
    exact hm hname
  · rw [List.concat_eq_append] at hsplit hall
    rw [← List.cons_append, ← List.append_assoc] at hsplit
    obtain ⟨-, hq⟩ := List.append_inj' hsplit rfl
    obtain rfl : m = q := by simpa using hq
    exact absurd (hall m (by simp)) hsilent

/-- The last list of a field stands for itself: no map has a list for the field, or the last map that
has one lists some choice, and either shows or hides the field too or comes after maps that leave no
list of the field open. -/
def ListsAfresh (maps : List FieldMap) (apiName : String) : Prop :=
  ListNothing maps apiName ∨ ∃ before m after, maps = before ++ m :: after
    ∧ m.apiName = some apiName ∧ m.dependents ≠ [] ∧ ListNothing after apiName
    ∧ (m.visible.isSome ∨ LeavesClosed before apiName)

/-- Maps that leave no list of a field open have restatements that do not. -/
theorem openValues_restated {maps : List FieldMap} (h : ∀ m ∈ maps, m.IsPlain) {apiName : String}
    (hclosed : LeavesClosed maps apiName) :
    openValues (maps.foldl restateAfter []) apiName = [] := by
  induction maps using List.reverseRecOn with
  | nil => rfl
  | append_singleton maps m ih =>
    obtain ⟨hmaps, hlast⟩ := List.forall_mem_append.mp h
    have hm : m.IsPlain := hlast m (by simp)
    obtain ⟨name, hname⟩ := Option.isSome_iff_exists.mp hm.named
    have hnothing : name = apiName → m.values = [] := by
      rintro rfl
      exact hm.values_eq_nil.mpr (hclosed maps m [] rfl (by simp) hname)
    rw [List.foldl_append, List.foldl_cons, List.foldl_nil, openValues_restateAfter _ hname,
      openValues_displayed]
    by_cases hsilent : m.IsSilent
    · -- a silent map changes nothing, so that the maps before it have to leave the list closed
      have hbefore : LeavesClosed maps apiName := by
        rintro earlier q silent rfl hall hq
        refine hclosed earlier q (silent ++ [m]) (by simp) ?_ hq
        exact List.forall_mem_append.mpr ⟨hall, by simpa using hsilent⟩
      simp [ih hmaps hbefore, hm.values_eq_nil.mpr hsilent.2]
    · by_cases hvisible : m.visible.isSome
      · simp only [hvisible, if_true, List.nil_append]
        split
        · next heq => exact hnothing heq
        · simp
      · have hvalues : m.values ≠ [] := by
          intro hnil
          exact hsilent ⟨by simpa using hvisible, hm.values_eq_nil.mp hnil⟩
        have hother : name ≠ apiName := fun heq => hvalues (hnothing heq)
        simp [hother, hvalues]

namespace Form

variable {f : Form} {apiName : String}

/-- Maps that list nothing for a field leave what it offers. -/
theorem choices?_applyMaps_of_listNothing {maps : List FieldMap} (h : ∀ m ∈ maps, m.IsPlain)
    (hnothing : ListNothing maps apiName) (s : FormState) :
    (f.applyMaps s maps).choices? (.field apiName) = s.choices? (.field apiName) := by
  have hnone : f.lastSaid? (f.mapChoices (.field apiName)) maps (.field apiName) = none := by
    refine lastSaid?_eq_none_iff.mpr fun m hm htarget => ?_
    obtain ⟨name, hname⟩ := Option.isSome_iff_exists.mp (h m hm).named
    obtain rfl : name = apiName := by simpa [target?_of_named hname] using htarget
    simp [mapChoices, hnothing m hm hname]
  rw [choices?_applyMaps_eq, hnone, Option.none_or]

/-- So do their restatements. -/
theorem choices?_restated_of_listNothing {maps : List FieldMap} (h : ∀ m ∈ maps, m.IsPlain)
    (hnothing : ListNothing maps apiName) (s : FormState) (acc : List FieldMap) :
    (f.applyMaps s (maps.foldl restateAfter acc)).choices? (.field apiName)
      = (f.applyMaps s acc).choices? (.field apiName) := by
  induction maps generalizing acc with
  | nil => rfl
  | cons m rest ih =>
    obtain ⟨hm, hrest⟩ := List.forall_mem_cons.mp h
    obtain ⟨hmnothing, hrestnothing⟩ := List.forall_mem_cons.mp hnothing
    obtain ⟨name, hname⟩ := Option.isSome_iff_exists.mp hm.named
    rw [List.foldl_cons, ih hrest hrestnothing, choices?_restateAfter f s acc hname, if_neg]
    rintro ⟨rfl, hvalues⟩
    refine hvalues (hm.values_eq_nil.mpr ?_)
    simp [FieldMap.dependents, hmnothing hname]

/-- Where the last list of a field stands for itself, the restatements of maps leave on offer what
the maps do. -/
theorem choices?_restated {maps : List FieldMap} (h : ∀ m ∈ maps, m.IsPlain)
    (hafresh : ListsAfresh maps apiName) (s : FormState) :
    (f.applyMaps s (maps.foldl restateAfter [])).choices? (.field apiName)
      = (f.applyMaps s maps).choices? (.field apiName) := by
  obtain hnothing | ⟨before, m, after, rfl, hname, hsome, hafter, hopen⟩ := hafresh
  · rw [choices?_restated_of_listNothing h hnothing, choices?_applyMaps_of_listNothing h hnothing,
      applyMaps_nil]
  · obtain ⟨hbefore, hrest⟩ := List.forall_mem_append.mp h
    obtain ⟨hm, hafterplain⟩ := List.forall_mem_cons.mp hrest
    obtain ⟨cs, hcs⟩ : ∃ cs, m.choices = some cs := by
      refine Option.ne_none_iff_exists'.mp fun hnone => hsome ?_
      simp [FieldMap.dependents, hnone]
    have hclosed : openValues (before.foldl restateAfter [] ++ m.displayed) apiName = [] := by
      rw [openValues_displayed]
      split
      · rfl
      · next hhidden => exact openValues_restated hbefore (hopen.resolve_left hhidden)
    have hvalues : m.values ≠ [] := fun hnil => hsome (hm.values_eq_nil.mp hnil)
    have heffects : (f.applyMaps s ((before ++ m :: after).foldl restateAfter [])).choices?
        (.field apiName) = some (f.offering apiName m.values) := by
      rw [List.foldl_append, List.foldl_cons, choices?_restated_of_listNothing hafterplain hafter,
        choices?_restateAfter f s _ hname, if_pos ⟨rfl, hvalues⟩, hclosed, List.nil_append]
    have hmaps : (f.applyMaps s (before ++ m :: after)).choices? (.field apiName)
        = some (f.offering apiName m.values) := by
      rw [applyMaps_append, applyMaps_cons, choices?_applyMaps_of_listNothing hafterplain hafter,
        choices?_applyMap, if_pos (target?_of_named hname)]
      simp [mapChoices, hcs, restricted_eq_offering, FieldMap.values, FieldMap.dependents]
    rw [heffects, hmaps]

end Form

/-! ## Effects and maps -/

/-- Plain maps have effects, which show and hide what the maps do. For every field whose last list
stands for itself the effects leave the same choices on offer. -/
theorem effects_restate_maps {x : Extractor} (hpolicy : x.policy = .fulfill) (i j k : Nat)
    {maps : List FieldMap} (h : ∀ m ∈ maps, m.IsPlain) (f : Form) (s : FormState) :
    ∃ effects, x.effects (.choice i j k) maps = .ok effects
      ∧ (∀ target, (f.applyMaps s (effectMaps effects)).visible? target
        = (f.applyMaps s maps).visible? target)
      ∧ ∀ apiName, ListsAfresh maps apiName →
        (f.applyMaps s (effectMaps effects)).choices? (.field apiName)
            = (f.applyMaps s maps).choices? (.field apiName)
          ∧ f.allowedChoices (f.applyMaps s (effectMaps effects)) apiName
            = f.allowedChoices (f.applyMaps s maps) apiName := by
  have hreads := x.reads_effects i j k maps
  have hmet : ∀ d ∈ x.mapDemands i j k maps, d.met = true := by
    refine (x.met_mapDemands i j k maps).mpr fun _ m hm d hd => ?_
    obtain ⟨hvalue, -⟩ := (h m hm).valued d hd
    exact ⟨hvalue, by simp [(h m hm).named]⟩
  obtain ⟨effects, heffects⟩ := hreads.succeeds_iff.mpr hmet
  obtain ⟨parts, hparts, hflatten⟩ := (hreads.post_of_eq_ok heffects).2 hpolicy
  have hrestated : effectMaps effects = maps.foldl restateAfter [] := by
    rw [hflatten, effectMaps_flatten h hparts]
  refine ⟨effects, heffects, fun target => ?_, fun apiName hafresh => ?_⟩
  · rw [hrestated, Form.visible?_restated h]
  · have hchoices : (f.applyMaps s (effectMaps effects)).choices? (.field apiName)
        = (f.applyMaps s maps).choices? (.field apiName) := by
      rw [hrestated, Form.choices?_restated h hafresh]
    have hoffered : ∀ s : FormState, f.allowedChoices s apiName
        = (s.choices? (.field apiName)).or ((f.layout.field? apiName).bind (·.choices)) :=
      fun _ => rfl
    exact ⟨hchoices, by rw [hoffered, hoffered, hchoices]⟩

/-- Two lists of a field with a list of another field between them. -/
theorem effects_restate_maps_of_city :
    let listing (field value : String) : FieldMap := .allowing field value
    let maps := [listing "city" "Berlin", listing "zip" "20095", listing "city" "Hamburg",
      { apiName := some "street", visible := some true }]
    let city : Field := {
      apiName := some "city", dataType := "pick_list"
      choices := some [{ actualValue := some "Berlin" }, { actualValue := some "Hamburg" }] }
    let f : Form := ⟨{ sections := [{ fields := [city] }] }, ⟨[]⟩⟩
    let x : Extractor := { policy := .fulfill }
    x.policy = .fulfill ∧ (∀ m ∈ maps, m.IsPlain) ∧ ListsAfresh maps "city"
      ∧ ∃ effects, x.effects (.choice 0 0 1) maps = .ok effects
        ∧ (f.applyMaps {} (effectMaps effects)).visible? (.field "street") = some true
        ∧ f.allowedChoices (f.applyMaps {} (effectMaps effects)) "city"
          = some [{ actualValue := some "Hamburg" }] := by
  intro listing maps city f x
  have hplain : ∀ m ∈ maps, m.IsPlain := by
    have hlisting : ∀ field value, (listing field value).IsPlain :=
      fun field value => ⟨rfl, by simp [listing, FieldMap.allowing, FieldMap.dependents]⟩
    have hstreet : FieldMap.IsPlain { apiName := some "street", visible := some true } :=
      ⟨rfl, by simp [FieldMap.dependents]⟩
    simp [maps, hlisting, hstreet]
  have hafresh : ListsAfresh maps "city" := by
    refine .inr ⟨[listing "city" "Berlin", listing "zip" "20095"], listing "city" "Hamburg", _, rfl,
      rfl, by simp [listing, FieldMap.allowing, FieldMap.dependents], by simp [ListNothing], .inr ?_⟩
    refine LeavesClosed.concat [listing "city" "Berlin"] ?_ (by simp [listing, FieldMap.allowing])
    simp [FieldMap.IsSilent, listing, FieldMap.allowing, FieldMap.dependents]
  obtain ⟨effects, heffects, hvisible, hoffered⟩ :=
    effects_restate_maps (x := x) rfl 0 0 1 hplain f {}
  exact ⟨rfl, hplain, hafresh, effects, heffects, hvisible (.field "street"),
    (hoffered "city" hafresh).2⟩

/-- Two neighbouring lists of a field, and an empty list: the maps leave on offer what the last list
says, the effects more than that. -/
theorem neighbouring_lists_are_joined :
    let berlin : Choice := { actualValue := some "Berlin" }
    let hamburg : Choice := { actualValue := some "Hamburg" }
    let city : Field := {
      apiName := some "city", dataType := "pick_list", choices := some [berlin, hamburg] }
    let neighbours : List FieldMap := [.allowing "city" "Berlin", .allowing "city" "Hamburg"]
    let empty : List FieldMap := [{ apiName := some "city", choices := some [] }]
    let f : Form := ⟨{ sections := [{ fields := [city] }] }, ⟨[]⟩⟩
    let x : Extractor := { policy := .fulfill }
    (∀ m ∈ neighbours ++ empty, m.IsPlain)
      ∧ (∃ effects, x.effects (.choice 0 0 0) neighbours = .ok effects
        ∧ f.allowedChoices (f.applyMaps {} neighbours) "city" = some [hamburg]
        ∧ f.allowedChoices (f.applyMaps {} (effectMaps effects)) "city" = some [berlin, hamburg])
      ∧ ∃ effects, x.effects (.choice 0 0 0) empty = .ok effects
        ∧ f.allowedChoices (f.applyMaps {} empty) "city" = some []
        ∧ f.allowedChoices (f.applyMaps {} (effectMaps effects)) "city" = some [berlin, hamburg] := by
  intro berlin hamburg city neighbours empty f x
  refine ⟨?_, ⟨_, rfl, rfl, rfl⟩, _, rfl, rfl, rfl⟩
  have hlisting : ∀ field value, (FieldMap.allowing field value).IsPlain :=
    fun field value => ⟨rfl, by simp [FieldMap.allowing, FieldMap.dependents]⟩
  have hempty : FieldMap.IsPlain { apiName := some "city", choices := some [] } :=
    ⟨rfl, by simp [FieldMap.dependents]⟩
  simp [neighbours, empty, hlisting, hempty]

end FormRules
