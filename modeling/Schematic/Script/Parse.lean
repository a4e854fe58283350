import Schematic.Circuit
import Schematic.Script.Coordinates
import Schematic.Script.Line

/-!
# Reading a script

Reading never fails: a malformed line leaves a diagnostic, and the next line is read as if it had
not been there.

* `Endpoint.read`, `Connection.read`, `Node.read`: the grammar of one line.
* `Item.ofLine`: what a line contributes, at most one node, connection or fault.
* `parse`: the circuit of a script, with its diagnostics.
-/

namespace Schematic

/-- The slot of a source that names none. -/
def defaultSourceSlot : String := "out"

/-- The slot of a target that names none. -/
def defaultTargetSlot : String := "in"

/-- Reads `node.slot`, cut at the first dot; without a dot the slot is `defaultSlot`. -/
def Endpoint.read (defaultSlot : String) (text : List Char) : Endpoint :=
  match Text.cut ['.'] text with
  | some (node, slot) => ⟨String.ofList (Text.trim node), String.ofList (Text.trim slot)⟩
  | none => ⟨String.ofList (Text.trim text), defaultSlot⟩

namespace Script

/-- What is wrong with a line. -/
inductive Fault where
  /-- A side of the arrow names no node. -/
  | invalidConnection
  /-- Fewer than two words before the `@`. -/
  | missingTypeOrId
  /-- No coordinates after the `@`. -/
  | invalidCoordinates
  deriving DecidableEq

def Fault.message : Fault → String
  | .invalidConnection => "Invalid connection"
  | .missingTypeOrId => "Need TYPE and id"
  | .invalidCoordinates => "Invalid coordinates"

/-- A fault with the number of its line, counted from one. -/
structure Diagnostic where
  line : Nat
  fault : Fault
  deriving DecidableEq

def Diagnostic.message (d : Diagnostic) : String :=
  "Line " ++ toString d.line ++ ": " ++ d.fault.message

end Script

/-- Reads the two sides of an arrow; both must name a node. -/
def Connection.read (left right : List Char) : Except Script.Fault Connection :=
  let source := Endpoint.read defaultSourceSlot left
  let target := Endpoint.read defaultTargetSlot right
  if source.node.isEmpty || target.node.isEmpty then .error .invalidConnection
  else .ok ⟨source, target⟩

/-- Reads the two sides of an `@`: type and id, the first two words before it, and coordinates and
free words after it. -/
def Node.read (head tail : List Char) : Except Script.Fault Node :=
  match Text.words head with
  | type :: id :: _ =>
    match Script.Coordinates.read? tail with
    | some place =>
      .ok ⟨String.ofList id, String.ofList type, place.x, place.y,
        (Text.words place.rest).map String.ofList⟩
    | none => .error .invalidCoordinates
  | _ => .error .missingTypeOrId

namespace Script

/-- What one line contributes. -/
inductive Item where
  | nothing
  | node (node : Node)
  | connection (connection : Connection)
  | fault (fault : Fault)
  deriving DecidableEq

namespace Item

/-- What a line of a known sort contributes. -/
def ofLine : Line → Item
  | .blank | .other => .nothing
  | .connection left right =>
    match Connection.read left right with
    | .ok c => .connection c
    | .error f => .fault f
  | .node head tail =>
    match Node.read head tail with
    | .ok n => .node n
    | .error f => .fault f

/-- What a raw line contributes. -/
def ofRaw (raw : List Char) : Item := ofLine (Line.classify raw)

def node? : Item → Option Node
  | .node n => some n
  | _ => none

def connection? : Item → Option Connection
  | .connection c => some c
  | _ => none

def fault? : Item → Option Fault
  | .fault f => some f
  | _ => none

end Item

structure Parsed where
  circuit : Circuit
  diagnostics : List Diagnostic
  deriving DecidableEq

def Parsed.messages (p : Parsed) : List String := p.diagnostics.map Diagnostic.message

/-- What the lines of a script contribute, line by line. -/
def items (script : String) : List Item := (lines script).map Item.ofRaw

/-- **Reads a script.** -/
def parse (script : String) : Parsed :=
  let items := items script
  { circuit := ⟨items.filterMap Item.node?, items.filterMap Item.connection?⟩
    diagnostics := (items.zipIdx 1).filterMap fun (item, line) => item.fault?.map (⟨line, ·⟩) }

end Script

end Schematic
