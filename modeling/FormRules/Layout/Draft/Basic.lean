-- SUMMARY: Layouts as they are written down, before anybody has checked that nothing is missing.
import FormRules.Rule.Basic
import FormRules.Json.Basic

/-!
# Drafts

A draft has the shape of a layout, but each of its keys may be missing. Of the `maps` of a choice a
draft even tells apart whether they are missing, `null` or a list.
-/

namespace FormRules

mutual

structure DraftChoice where
  actualValue : Option String := none
  displayValue : Option String := none
  apiName : Option String := none
  maps : Option (Option (List DraftMap)) := none

structure DraftMap where
  apiName : Option String := none
  id : Option String := none
  visible : Option Bool := none
  choices : Option (List DraftChoice) := none

end

instance : Inhabited DraftChoice := ⟨{}⟩
instance : Inhabited DraftMap := ⟨{}⟩

structure DraftField where
  id : Option String := none
  apiName : Option String := none
  dataType : Option String := none
  label : Option String := none
  jsonType : Option String := none
  required : Option Bool := none
  visible : Option Bool := none
  defaultValue : Option Json := none
  choices : Option (List DraftChoice) := none
  deriving Inhabited

structure DraftSection where
  id : Option String := none
  name : Option String := none
  visible : Option Bool := none
  fields : Option (List DraftField) := none
  deriving Inhabited

structure Draft where
  sections : Option (List DraftSection) := none
  rules : Option (List Rule) := none
  deriving Inhabited

end FormRules
