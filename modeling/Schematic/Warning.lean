import Schematic.Netlist.Feedback

/-!
# Warnings

Evaluation tolerates every circuit; these are the things about a circuit that it silently tolerates.

* `Warning`: the six causes, with their wording in `Warning.message`.
* `Circuit.warnings`: all warnings, in report order.
-/

namespace Schematic

/-- Something suspicious about a circuit. -/
inductive Warning where
  /-- Several nodes share an id. -/
  | duplicateId (id : String) (count : Nat)
  /-- The source of a connection is not declared. -/
  | unknownSource (key : String)
  /-- The target of a connection is not declared. -/
  | unknownTarget (key : String)
  /-- A type that is neither `In` nor `Out` nor a gate. -/
  | unknownType (id type : String)
  /-- Nothing is connected to an input. -/
  | unwiredInput (id : String) (slots : List String)
  /-- Nodes that feed back into themselves. -/
  | feedbackLoop (ids : List String)
  deriving DecidableEq

def Warning.message : Warning → String
  | .duplicateId id count =>
    "node id '" ++ id ++ "' is declared " ++ toString count ++ " times"
  | .unknownSource key => "connection '" ++ key ++ "' reads from an undeclared node"
  | .unknownTarget key => "connection '" ++ key ++ "' drives an undeclared node"
  | .unknownType id type =>
    "node '" ++ id ++ "' has unknown type '" ++ type ++ "' and never produces a value"
  | .unwiredInput id slots =>
    "node '" ++ id ++ "' has nothing connected to " ++ "/".intercalate slots
  | .feedbackLoop ids => "combinational feedback loop through " ++ ", ".intercalate ids

/-- The number of nodes declared with an id. -/
def Circuit.declarations (c : Circuit) (id : String) : Nat := c.nodes.countP (·.id = id)

/-- A warning for every id declared more than once. -/
def Netlist.duplicateIds (n : Netlist) : List Warning :=
  n.signals.names.toList.filterMap fun id =>
    let count := n.circuit.declarations id
    if count > 1 then some (.duplicateId id count) else none

/-- Warnings for the two ends of a connection. -/
def Netlist.undeclaredEnds (n : Netlist) (c : Connection) : List Warning :=
  (if (n.signals.number? c.source.node).isNone then [.unknownSource c.key] else [])
    ++ (if (n.signals.number? c.target.node).isNone then [.unknownTarget c.key] else [])

/-- A warning if an input with these slots has no wire. -/
def unwired (id : String) (slots : List String) (wire : Option Wire) : List Warning :=
  if wire.isNone then [.unwiredInput id slots] else []

/-- Warnings about the type and the inputs of an element. -/
def Element.warnings (e : Element) : List Warning :=
  match e.cell with
  | .input => []
  | .output w => unwired e.node.id outputSlots w
  | .unary _ w => unwired e.node.id unarySlots w
  | .binary _ a b => unwired e.node.id firstSlots a ++ unwired e.node.id secondSlots b
  | .unknown => [.unknownType e.node.id e.node.type]

namespace Netlist

/-- **The classes of nodes that feed back into themselves.** -/
def feedbackLoops (n : Netlist) : List Warning :=
  n.loops.map fun loop => .feedbackLoop (loop.filterMap n.signals.name?)

/-- All warnings: duplicate ids, undeclared ends, types and inputs, feedback loops. -/
def warnings (n : Netlist) : List Warning :=
  n.duplicateIds
    ++ n.circuit.connections.flatMap n.undeclaredEnds
    ++ n.elements.flatMap Element.warnings
    ++ n.feedbackLoops

end Netlist

/-- **The warnings about a circuit.** -/
def Circuit.warnings (c : Circuit) : List Warning := (Netlist.ofCircuit c).warnings

end Schematic
