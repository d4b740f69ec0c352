-- SUMMARY: Places inside a document, and how messages name them.

/-!
# Paths

A path leads from the root of a document to one of its parts, by object keys and array indices.
Messages name the part by the path's text, such as `sections[0].fields[2]`.
-/

namespace FormRules

inductive Segment where
  | key (name : String)
  | index (i : Nat)
  deriving DecidableEq, Repr, Inhabited

/-- The steps from the root of a document to one of its parts, outermost first. -/
structure Path where
  segments : List Segment := []
  deriving DecidableEq, Repr, Inhabited

namespace Path

def root : Path := {}

/-- Go on to the value under an object key. -/
def key (p : Path) (name : String) : Path := ⟨p.segments ++ [.key name]⟩

/-- Go on to an element of an array. -/
def index (p : Path) (i : Nat) : Path := ⟨p.segments ++ [.index i]⟩

/-- The path of a part of `s`, seen from the object or array that holds `s`. -/
def under (s : Segment) (p : Path) : Path := ⟨s :: p.segments⟩

/-- The place of a field, given by the position of its section and its position there. -/
def field (sectionIndex fieldIndex : Nat) : Path :=
  ((root.key "sections").index sectionIndex).key "fields" |>.index fieldIndex

/-- The text of a step that follows another. -/
def stepText : Segment → String
  | .key name => "." ++ name
  | .index i => "[" ++ i.repr ++ "]"

/-- The steps of a path, one after the other; no point stands before the first. -/
def stepsText : List Segment → String
  | [] => ""
  | .key name :: rest => name ++ String.join (rest.map stepText)
  | .index i :: rest => stepText (.index i) ++ String.join (rest.map stepText)

/-- The name that a message gives to a part of a document. -/
def text (p : Path) : String :=
  if p.segments.isEmpty then "document root" else stepsText p.segments

@[simp] theorem text_root : root.text = "document root" := rfl

@[simp] theorem segments_key (p : Path) (name : String) :
    (p.key name).segments = p.segments ++ [.key name] := rfl

@[simp] theorem segments_index (p : Path) (i : Nat) :
    (p.index i).segments = p.segments ++ [.index i] := rfl

end Path

end FormRules
