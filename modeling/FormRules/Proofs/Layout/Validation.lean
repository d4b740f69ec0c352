-- SUMMARY: Validation succeeds exactly for complete drafts, and otherwise reports the first missing key.
import FormRules.Proofs.Extraction.FirstMissing
import FormRules.Proofs.Layout.Description

/-!
# Validation is exact

A draft that has its sections, their fields and the data types of these is validated to the layout
that it describes. Any other draft lacks a key somewhere (`Draft.Lacks`), and validation reports the
first place where it does. Document order goes depth first: an object comes before its parts, and
these come by their indices, so that places compare like their lists of indices.
-/

namespace FormRules

/-! ## Places and missing keys -/

/-- An object of a draft that needs a key, by its indices: the document, a section or a field. -/
inductive DraftPlace where
  | root
  | area (i : Nat)
  | field (i j : Nat)
  deriving DecidableEq, Repr

namespace DraftPlace

/-- Document order is the order of these lists. -/
def indices : DraftPlace → List Nat
  | root => []
  | area i => [i]
  | field i j => [i, j]

def path : DraftPlace → Path
  | root => .root
  | area i => (Path.root.key "sections").index i
  | field i j => .field i j

/-- The name that a message gives to a place. -/
def text : DraftPlace → String
  | root => "document root"
  | area i => "sections[" ++ i.repr ++ "]"
  | field i j => Place.fieldText i j

/-- The path of a place is shown as its name. -/
theorem text_path (place : DraftPlace) : place.path.text = place.text := by
  cases place with
  | root => rfl
  | area i =>
    have hpath : (path (.area i)).text = "sections" ++ ("[" ++ (i.repr ++ "]")) := by
      simp [path, Path.root, Path.text, Path.stepsText, Path.stepText, String.append_assoc]
    have hopen : "sections[" = "sections" ++ "[" := rfl
    rw [hpath, text, hopen, String.append_assoc, String.append_assoc]
  | field i j => exact Path.text_field i j

/-- Places that differ have paths that differ. -/
theorem path_injective : Function.Injective path := by
  intro place other h
  cases place <;> cases other <;> simp_all [path, Path.root, Path.key, Path.index, Path.field]

theorem isLegible_path (place : DraftPlace) : place.path.IsLegible := by
  cases place with
  | root => exact .root
  | area i => exact .index (.word .root (by simp) (by simp)) i
  | field i j => exact Path.isLegible_field i j

/-- The name that a message gives to a place leads back to the place. -/
theorem text_injective : Function.Injective text := by
  intro place other h
  rw [← text_path, ← text_path] at h
  exact path_injective (place.isLegible_path.text_inj other.isLegible_path h)

end DraftPlace

namespace Draft

/-- A draft has every key that a layout needs. -/
def IsComplete (d : Draft) : Prop :=
  ∃ sections, d.sections = some sections ∧ ∀ s ∈ sections,
    ∃ fields, s.fields = some fields ∧ ∀ f ∈ fields, f.dataType.isSome

/-- An object of a draft lacks a key that a layout needs. -/
inductive Lacks (d : Draft) : DraftPlace → String → Prop where
  | sections : d.sections = none → Lacks d .root "sections"
  | fields {sections : List DraftSection} {i : Nat} {s : DraftSection} :
    d.sections = some sections → sections[i]? = some s → s.fields = none →
    Lacks d (.area i) "fields"
  | dataType {sections : List DraftSection} {i : Nat} {s : DraftSection} {fields : List DraftField}
    {j : Nat} {f : DraftField} :
    d.sections = some sections → sections[i]? = some s → s.fields = some fields →
    fields[j]? = some f → f.dataType = none → Lacks d (.field i j) "data_type"

end Draft

/-! ## Demands -/

/-- A place is asked for a key. -/
def DraftPlace.demand (place : DraftPlace) (key : String) (met : Bool) : Demand :=
  ⟨place.path, key, met⟩

/-- A field is asked for its data type. -/
def DraftField.demands (i j : Nat) (f : DraftField) : List Demand :=
  [DraftPlace.demand (.field i j) "data_type" f.dataType.isSome]

/-- A section is asked for its fields, and then these are. -/
def DraftSection.demands (i : Nat) (s : DraftSection) : List Demand :=
  DraftPlace.demand (.area i) "fields" s.fields.isSome ::
    (s.fields.getD []).zipIdx.flatMap fun (f, j) => f.demands i j

/-- The keys that a draft is asked for, in document order. -/
def Draft.demands (d : Draft) : List Demand :=
  DraftPlace.demand .root "sections" d.sections.isSome ::
    (d.sections.getD []).zipIdx.flatMap fun (s, i) => s.demands i

/-! ## What validation reads and yields -/

theorem DraftField.reads_validate (i j : Nat) (f : DraftField) :
    Reads (f.demands i j) f.Describes (f.validate (.field i j)) := by
  refine (Reads.require f.dataType (.field i j) "data_type").bind_ok fun dataType h => ?_
  exact {
    id := rfl
    apiName := rfl
    dataType := h
    label := rfl
    jsonType := rfl
    required := rfl
    visible := rfl
    defaultValue := rfl
    choices := by
      cases f.choices with
      | none => exact .none
      | some cs =>
        have h := describes_draftChoicesToChoices cs
        rw [draftChoicesToChoices_eq_map] at h
        exact .some h }

theorem DraftSection.reads_validate (i : Nat) (s : DraftSection) :
    Reads (s.demands i) s.Describes (s.validate ((Path.root.key "sections").index i)) := by
  refine Reads.require_bind fun fields hfields => ?_
  rw [hfields, Option.getD_some]
  have hall : Reads _ (List.Forall₂ DraftField.Describes fields)
      (checkAll DraftField.validate (((Path.root.key "sections").index i).key "fields") 0 fields) :=
    Reads.checkAll (fun j f => f.reads_validate i j) 0 fields
  refine hall.bind_ok fun gs h => ?_
  exact { id := rfl, name := rfl, visible := rfl, fields := ⟨fields, hfields, h⟩ }

/-- Validation asks a draft for its demands, in document order, and yields a layout that the draft
describes. -/
theorem Draft.reads_validate (d : Draft) : Reads d.demands d.Describes d.validate := by
  refine Reads.require_bind fun sections hsections => ?_
  rw [hsections, Option.getD_some]
  have hall : Reads _ (List.Forall₂ DraftSection.Describes sections)
      (checkAll DraftSection.validate (Path.root.key "sections") 0 sections) :=
    Reads.checkAll DraftSection.reads_validate 0 sections
  refine hall.bind_ok fun ts h => ?_
  exact { sections := ⟨sections, hsections, h⟩, rules := rfl }

/-! ## Demands are met where no key is missing -/

theorem DraftField.met_demands (i j : Nat) (f : DraftField) :
    (∀ q ∈ f.demands i j, q.met = true) ↔ f.dataType.isSome := by
  simp [DraftField.demands, DraftPlace.demand]

theorem DraftSection.met_demands (i : Nat) (s : DraftSection) :
    (∀ q ∈ s.demands i, q.met = true)
      ↔ ∃ fields, s.fields = some fields ∧ ∀ f ∈ fields, f.dataType.isSome := by
  rw [DraftSection.demands, List.forall_mem_cons,
    met_of_elements (DraftField.met_demands i)]
  cases s.fields <;> simp [DraftPlace.demand]

namespace Draft

variable {d : Draft}

theorem met_demands : (∀ q ∈ d.demands, q.met = true) ↔ d.IsComplete := by
  rw [Draft.demands, List.forall_mem_cons, met_of_elements DraftSection.met_demands, IsComplete]
  cases d.sections <;> simp [DraftPlace.demand]

/-- Where a draft does not meet a demand, an object lacks the key. -/
theorem Lacks.of_demands {q : Demand} (hq : q ∈ d.demands) (hmet : q.met = false) :
    ∃ place, q.path = place.path ∧ d.Lacks place q.key := by
  obtain rfl | hq := List.mem_cons.mp hq
  · exact ⟨.root, rfl, .sections (by simpa [DraftPlace.demand] using hmet)⟩
  obtain ⟨⟨s, i⟩, hs, hq⟩ := List.mem_flatMap.mp hq
  obtain ⟨sections, hsections⟩ : ∃ sections, d.sections = some sections := by
    cases h : d.sections with
    | none => simp [h] at hs
    | some sections => exact ⟨sections, rfl⟩
  rw [hsections, Option.getD_some, List.mem_zipIdx_iff_getElem?] at hs
  obtain rfl | hq := List.mem_cons.mp hq
  · exact ⟨.area i, rfl, .fields hsections hs (by simpa [DraftPlace.demand] using hmet)⟩
  obtain ⟨⟨f, j⟩, hf, hq⟩ := List.mem_flatMap.mp hq
  obtain rfl := List.mem_singleton.mp hq
  obtain ⟨fields, hfields⟩ : ∃ fields, s.fields = some fields := by
    cases h : s.fields with
    | none => simp [h] at hf
    | some fields => exact ⟨fields, rfl⟩
  rw [hfields, Option.getD_some, List.mem_zipIdx_iff_getElem?] at hf
  exact ⟨.field i j, rfl, .dataType hsections hs hfields hf (by simpa [DraftPlace.demand] using hmet)⟩

/-- Where an object lacks a key, the draft does not meet the demand for it. -/
theorem Lacks.exists_demand {place : DraftPlace} {key : String} (h : d.Lacks place key) :
    ∃ q ∈ d.demands, q.met = false ∧ q.path = place.path ∧ q.key = key := by
  cases h with
  | sections hnone => exact ⟨_, List.mem_cons_self, by simp [DraftPlace.demand, hnone], rfl, rfl⟩
  | @fields sections i s hsections hs hnone =>
    refine ⟨_, List.mem_cons_of_mem _ (List.mem_flatMap.mpr ⟨(s, i), ?_, List.mem_cons_self⟩), ?_⟩
    · rwa [hsections, Option.getD_some, List.mem_zipIdx_iff_getElem?]
    · simp [DraftPlace.demand, hnone]
  | @dataType sections i s fields j f hsections hs hfields hf hnone =>
    refine ⟨_, List.mem_cons_of_mem _ (List.mem_flatMap.mpr ⟨(s, i), ?_, List.mem_cons_of_mem _
      (List.mem_flatMap.mpr ⟨(f, j), ?_, List.mem_singleton_self _⟩)⟩), ?_⟩
    · rwa [hsections, Option.getD_some, List.mem_zipIdx_iff_getElem?]
    · rwa [hfields, Option.getD_some, List.mem_zipIdx_iff_getElem?]
    · simp [DraftPlace.demand, hnone]

end Draft

/-! ## Document order -/

/-- The indices along a path. -/
def Path.indices (p : Path) : List Nat :=
  p.segments.filterMap fun
    | .key _ => none
    | .index i => some i

theorem DraftPlace.indices_path (place : DraftPlace) : place.path.indices = place.indices := by
  cases place <;> rfl

/-- Of two demands the first concerns an object that comes first. -/
def Demand.Before (q r : Demand) : Prop := q.path.indices < r.path.indices

@[simp] theorem DraftPlace.demand_before {place other : DraftPlace} {key key' : String}
    {met met' : Bool} :
    (place.demand key met).Before (other.demand key' met') ↔ place.indices < other.indices := by
  rw [Demand.Before, demand, demand, indices_path, indices_path]

/-- The demands on the elements of a list come in document order if those on each element do, and
those on one element come before those on the next ones. -/
theorem pairwise_elements {α : Type} {asks : Nat → α → List Demand}
    (heach : ∀ i x, (asks i x).Pairwise Demand.Before)
    (hnext : ∀ i j x y, i < j → ∀ q ∈ asks i x, ∀ r ∈ asks j y, q.Before r) (xs : List α) :
    (xs.zipIdx.flatMap fun (x, i) => asks i x).Pairwise Demand.Before := by
  have hindices : xs.zipIdx.Pairwise fun a b => a.2 < b.2 := by
    rw [← List.pairwise_map, List.zipIdx_map_snd]
    exact List.pairwise_lt_range' 1
  refine List.pairwise_flatMap.mpr ⟨fun (x, i) _ => heach i x, hindices.imp ?_⟩
  intro (x, i) (y, j) hlt
  exact hnext i j x y hlt

theorem DraftSection.indices_of_mem_demands {i : Nat} {s : DraftSection} {q : Demand}
    (h : q ∈ s.demands i) : ∃ rest, q.path.indices = i :: rest := by
  obtain rfl | h := List.mem_cons.mp h
  · exact ⟨[], rfl⟩
  · obtain ⟨⟨f, j⟩, _, h⟩ := List.mem_flatMap.mp h
    obtain rfl := List.mem_singleton.mp h
    exact ⟨[j], rfl⟩

theorem DraftSection.pairwise_demands (i : Nat) (s : DraftSection) :
    (s.demands i).Pairwise Demand.Before := by
  refine List.pairwise_cons.mpr ⟨fun q hq => ?_, pairwise_elements ?_ ?_ _⟩
  · obtain ⟨⟨f, j⟩, _, hq⟩ := List.mem_flatMap.mp hq
    obtain rfl := List.mem_singleton.mp hq
    simp [DraftPlace.indices]
  · exact fun j f => List.pairwise_singleton _ _
  · intro j k f g hlt
    simpa [DraftField.demands, DraftPlace.indices] using List.cons_lt_cons_iff.mpr (.inl hlt)

theorem Draft.pairwise_demands (d : Draft) : d.demands.Pairwise Demand.Before := by
  refine List.pairwise_cons.mpr ⟨fun q hq => ?_, pairwise_elements DraftSection.pairwise_demands ?_ _⟩
  · obtain ⟨⟨s, i⟩, _, hq⟩ := List.mem_flatMap.mp hq
    obtain ⟨rest, hrest⟩ := DraftSection.indices_of_mem_demands hq
    rw [Demand.Before, hrest]
    exact List.nil_lt_cons i rest
  · intro i j s t hlt q hq r hr
    obtain ⟨rest, hrest⟩ := DraftSection.indices_of_mem_demands hq
    obtain ⟨rest', hrest'⟩ := DraftSection.indices_of_mem_demands hr
    rw [Demand.Before, hrest, hrest', List.cons_lt_cons_iff]
    exact .inl hlt

/-- The first unmet demand of a draft is at the first place that lacks a key. -/
theorem Draft.Lacks.first {d : Draft} {q : Demand} (hq : firstUnmet? d.demands = some q) :
    ∃ place, q.path = place.path ∧ d.Lacks place q.key ∧ ∀ other key, d.Lacks other key →
      other = place ∧ key = q.key ∨ place.indices < other.indices := by
  obtain ⟨hunmet, before, after, hsplit, hbefore⟩ := List.find?_eq_some_iff_append.mp hq
  have hmem : q ∈ d.demands := by simp [hsplit]
  obtain ⟨place, hpath, hlacks⟩ := Lacks.of_demands hmem (by simpa using hunmet)
  refine ⟨place, hpath, hlacks, fun other key hother => ?_⟩
  obtain ⟨r, hr, hrmet, hrpath, rfl⟩ := hother.exists_demand
  rw [hsplit, List.mem_append, List.mem_cons] at hr
  obtain hr | rfl | hr := hr
  · -- what comes before is met
    have := hbefore r hr
    simp [hrmet] at this
  · exact .inl ⟨DraftPlace.path_injective (hrpath.symm.trans hpath), rfl⟩
  · have hpairwise := d.pairwise_demands
    rw [hsplit] at hpairwise
    have hlt : q.Before r :=
      (List.pairwise_cons.mp (List.pairwise_append.mp hpairwise).2.1).1 r hr
    rw [Demand.Before, hpath, hrpath, place.indices_path, other.indices_path] at hlt
    exact .inr hlt

/-! ## Validation -/

/-- Validation succeeds exactly for complete drafts. The layout is then the one that the draft
describes, in which a choice at any depth has maps exactly if its draft mentions them. Otherwise the
error names a key and the place of an object that lacks it, and every other key that an object lacks
comes later in the document. -/
theorem validation_is_exact (d : Draft) :
    ((∃ l, d.validate = .ok l) ↔ d.IsComplete)
    ∧ (∀ l, d.validate = .ok l → d.Describes l ∧ ∀ i j k steps,
        (l.choice? i j k steps).map (·.maps.isSome) = (d.choice? i j k steps).map (·.maps.isSome))
    ∧ ∀ e, d.validate = .error e → ∃ place key, e = .missingKey key place.path
        ∧ place.path.text = place.text ∧ d.Lacks place key
        ∧ ∀ other key', d.Lacks other key' →
          other = place ∧ key' = key ∨ place.indices < other.indices := by
  refine ⟨?succeeds, fun l hl => ?describes, fun e he => ?first⟩
  case succeeds => rw [d.reads_validate.succeeds_iff, Draft.met_demands]
  case describes =>
    have hdescribes : d.Describes l := d.reads_validate.post_of_eq_ok hl
    refine ⟨hdescribes, fun i j k steps => ?_⟩
    exact map_eq_of_rel (hdescribes.choice i j k steps) fun _ _ h => h.isSome_maps
  case first =>
    obtain ⟨q, hq, rfl⟩ := d.reads_validate.firstUnmet?_of_eq_error he
    obtain ⟨place, hpath, hlacks, hfirst⟩ := Draft.Lacks.first hq
    exact ⟨place, q.key, by rw [Demand.error, hpath], place.text_path, hlacks, hfirst⟩

/-- Maps that are `null` two steps deep beside a choice without maps; and a draft of which a field
and the section after it lack a key. -/
theorem validation_is_exact_of_status :
    let map : DraftMap := { choices := some [{ maps := some none }, {}] }
    let inner : DraftChoice := { maps := some (some [map]) }
    let outer : DraftChoice := { maps := some (some [{}, { choices := some [inner] }]) }
    let status : DraftField := { dataType := some "pick_list", choices := some [outer] }
    let d : Draft := { sections := some [{ fields := some [] }, { fields := some [status] }] }
    let d' : Draft := { sections := some [{ fields := some [status, {}] }, {}] }
    (∃ l, d.validate = .ok l ∧ d.Describes l
      ∧ (l.choice? 1 0 0 [(1, 0), (0, 0)]).map (·.maps.isSome) = some true
      ∧ (l.choice? 1 0 0 [(1, 0), (0, 1)]).map (·.maps.isSome) = some false)
    ∧ ∃ place, d'.validate = .error (.missingKey "data_type" place.path)
      ∧ place.path.text = "sections[0].fields[1]" ∧ d'.Lacks place "data_type" := by
  intro map inner outer status d d'
  obtain ⟨l, hl⟩ : ∃ l, d.validate = .ok l := ⟨_, rfl⟩
  have he : d'.validate = .error (.missingKey "data_type" (.field 0 1)) := rfl
  obtain ⟨hdescribes, hmaps⟩ := (validation_is_exact d).2.1 l hl
  obtain ⟨place, key, heq, htext, hlacks, -⟩ := (validation_is_exact d').2.2 _ he
  obtain ⟨rfl, hpath⟩ : "data_type" = key ∧ Path.field 0 1 = place.path := by simpa using heq
  obtain rfl : place = .field 0 1 := DraftPlace.path_injective hpath.symm
  exact ⟨⟨l, hl, hdescribes, hmaps 1 0 0 _, hmaps 1 0 0 _⟩, .field 0 1, he, htext, hlacks⟩

end FormRules
