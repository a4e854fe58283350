import Schematic.Text.Split

/-!
# Assignments

* `Assignment.read`: an input assignment written `ID=VALUE`.
* `level?`: the eight words for a logic level.
-/

namespace Schematic

/-- A level for the node with an id. -/
structure Assignment where
  id : String
  level : Bool
  deriving DecidableEq

/-- Why a text is no assignment. -/
inductive AssignmentFault where
  | noEqualsSign
  | emptyId
  /-- The text in place of the level, in lower case. -/
  | notALevel (value : String)
  deriving DecidableEq

def AssignmentFault.message : AssignmentFault → String
  | .noEqualsSign => "expected ID=VALUE"
  | .emptyId => "empty node id"
  | .notALevel value => "'" ++ value ++ "' is not a logic level"

/-- A text that is no assignment, with its fault. -/
structure InvalidAssignment where
  text : String
  fault : AssignmentFault
  deriving DecidableEq

def InvalidAssignment.message (e : InvalidAssignment) : String :=
  "Invalid input assignment '" ++ e.text ++ "': " ++ e.fault.message

def highWords : List String := ["1", "true", "on", "high"]

def lowWords : List String := ["0", "false", "off", "low"]

/-- The level that a word in lower case stands for. -/
def level? (word : String) : Option Bool :=
  if highWords.contains word then some true
  else if lowWords.contains word then some false
  else none

/-- Reads `ID=VALUE`, cut at the first `=`. Blanks around the two parts do not count, nor does the
case of ASCII letters in the value. -/
def Assignment.read (text : String) : Except InvalidAssignment Assignment :=
  match Text.cut ['='] text.toList with
  | none => .error ⟨text, .noEqualsSign⟩
  | some (left, right) =>
    match Text.trim left with
    | [] => .error ⟨text, .emptyId⟩
    | id =>
      let word := String.ofList ((Text.trim right).map Char.toLower)
      match level? word with
      | some level => .ok ⟨String.ofList id, level⟩
      | none => .error ⟨text, .notALevel word⟩

end Schematic
