-- SUMMARY: The warnings that are logged while rules are extracted.
import FormRules.Extraction
import FormRules.Warning

/-!
# Warnings of an extraction

Extraction warns of a map that says whether something is shown and names neither a field nor a
section. It does so as it comes to the map, so that an extraction that fails has warned of what
stands before the missing key.
-/

namespace FormRules

/-- What is logged while a check is applied to every element of the array at `path`, from a given
index on. The first element that fails is the last one that is looked at. -/
def logAll (check : Path → α → Except LayoutError β) (log : Path → α → List Warning) (path : Path)
    (index : Nat) : List α → List Warning
  | [] => []
  | x :: rest =>
    log (path.index index) x ++
      match check (path.index index) x with
      | .ok _ => logAll check log path (index + 1) rest
      | .error _ => []

/-- A map is warned of when its visibility is looked at, before the choices that it lists. -/
def FieldMap.warnings (path : Path) (m : FieldMap) : List Warning :=
  match m.visible, m.visibilityTarget? with
  | some _, none => [.aimlessMap path]
  | _, _ => []

namespace Extractor

/-- What is logged while the maps of a choice are read, if they are. -/
def mapWarnings (x : Extractor) (path : Path) (maps : List FieldMap) : List Warning :=
  match x.policy with
  | .ignore => []
  | .fulfill => logAll FieldMap.effects FieldMap.warnings (path.key "maps") 0 maps

/-- Maps are read once the name of their field and the value of their choice are there. -/
def choiceWarnings (x : Extractor) (f : Field) (path : Path) (choice : Choice) : List Warning :=
  match choice.maps, f.apiName, choice.actualValue with
  | some maps, some _, some _ => x.mapWarnings path maps
  | _, _, _ => []

def fieldWarnings (x : Extractor) (path : Path) (f : Field) : List Warning :=
  if x.accepts f then
    logAll (x.choiceRules path f) (x.choiceWarnings f) (path.key "pick_list_values") 0 f.choiceList
  else []

def sectionWarnings (x : Extractor) (path : Path) (s : Section) : List Warning :=
  logAll x.fieldRules x.fieldWarnings (path.key "fields") 0 s.fields

/-- What is logged while the rules of a layout are extracted. -/
def warnings (x : Extractor) (l : Layout) : List Warning :=
  logAll x.sectionRules x.sectionWarnings (Path.root.key "sections") 0 l.sections

end Extractor

end FormRules
