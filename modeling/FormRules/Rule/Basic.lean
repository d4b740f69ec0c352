-- SUMMARY: Rules: a condition and the effects that follow from it, as nested function calls.

/-!
# Rules

A rule has a condition and two lists of effects, one for when the condition holds and one for when
it does not. Conditions and effects are calls of named functions on operands and other calls; what
a name means is decided where the call is used.
-/

namespace FormRules

/-- A leaf argument. As a rule exactly one of its keys is set. -/
structure Operand where
  sectionId : Option String := none
  field : Option String := none
  value : Option String := none
  deriving DecidableEq, Repr, Inhabited

namespace Operand

def ofField (apiName : String) : Operand := { field := some apiName }

def ofValue (value : String) : Operand := { value := some value }

def ofSection (id : String) : Operand := { sectionId := some id }

end Operand

mutual

/-- A named function applied to arguments. -/
structure Call where
  func : String
  args : List Argument

/-- An argument: a call that is nested in another one, or an operand. -/
inductive Argument where
  | call (c : Call)
  | operand (o : Operand)

end

instance : Inhabited Call := ⟨⟨"", []⟩⟩
instance : Inhabited Argument := ⟨.operand {}⟩

/-- Effects that depend on whether a condition holds. -/
structure Rule where
  condition : Call
  fulfilled : List Call := []
  rejected : List Call := []
  deriving Inhabited

namespace Call

/-- The condition that a field has a value. -/
def is (field value : String) : Call :=
  ⟨"is", [.operand (.ofField field), .operand (.ofValue value)]⟩

/-- The effect that a field offers a value. -/
def allow (field value : String) : Call :=
  ⟨"allow", [.operand (.ofField field), .operand (.ofValue value)]⟩

/-- The condition that all of some conditions hold. -/
def all (calls : List Call) : Call := ⟨"and", calls.map .call⟩

/-- The effect that a target is shown or hidden. -/
def setVisible (visible : Bool) (target : Operand) : Call :=
  ⟨if visible then "show" else "hide", [.operand target]⟩

end Call

end FormRules
