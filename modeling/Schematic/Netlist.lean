import Schematic.Netlist.Incoming
import Schematic.Netlist.Signals

/-!
# Netlists

A netlist is a circuit with its ids numbered and, for every node, the wires that it reads.

* `Wire`: a connection chosen to drive an input, with the signal at its source.
* `Cell`: what a node computes, from which wires.
* `Netlist.ofCircuit`: all wires resolved, one element per node.
-/

namespace Schematic

/-- A connection, by its place in declaration order, that drives an input. The source is `none` if
it names an id that no node has. -/
structure Wire where
  connection : Nat
  source : Option Nat
  deriving DecidableEq

/-- What a node computes from the wires that it reads; `none` is an input with nothing wired. -/
inductive Cell where
  | input
  | output (wire : Option Wire)
  | unary (gate : Gate) (wire : Option Wire)
  | binary (gate : Gate) (first second : Option Wire)
  | unknown
  deriving DecidableEq

namespace Cell

/-- The inputs of a cell, wired or not. -/
def inputs : Cell → List (Option Wire)
  | .input | .unknown => []
  | .output w | .unary _ w => [w]
  | .binary _ a b => [a, b]

/-- The wires that a cell reads. -/
def wires (c : Cell) : List Wire := c.inputs.filterMap id

end Cell

/-- A node with the signal that it writes and its cell. -/
structure Element where
  node : Node
  signal : Nat
  cell : Cell
  deriving DecidableEq

def outputSlots : List String := ["in"]

def unarySlots : List String := ["in", "in0"]

/-- The slots of the first input of a gate with two. -/
def firstSlots : List String := ["in0", "a"]

/-- The slots of the second input of a gate with two. -/
def secondSlots : List String := ["in1", "b"]

/-- A circuit with its wiring resolved. -/
structure Netlist where
  circuit : Circuit
  signals : Signals
  incoming : Incoming
  elements : List Element

/-- The wire that drives the input of `target` with the given slots: the earliest connection. -/
def wire? (signals : Signals) (incoming : Incoming) (target : String) (slots : List String) :
    Option Wire :=
  (incoming.first? target slots).map fun c => ⟨c.2, signals.number? c.1.source.node⟩

def Cell.ofNode (signals : Signals) (incoming : Incoming) (node : Node) : Cell :=
  let wire := wire? signals incoming node.id
  match node.kind with
  | .input => .input
  | .output => .output (wire outputSlots)
  | .gate g =>
    if g.arity = 1 then .unary g (wire unarySlots)
    else .binary g (wire firstSlots) (wire secondSlots)
  | .unknown => .unknown

/-- A node resolved against the whole circuit. -/
def Element.ofNode (signals : Signals) (incoming : Incoming) (node : Node) : Element :=
  ⟨node, (signals.number? node.id).getD 0, Cell.ofNode signals incoming node⟩

/-- **Resolves the wiring of a circuit.** -/
def Netlist.ofCircuit (circuit : Circuit) : Netlist :=
  let signals := Signals.ofIds (circuit.nodes.map (·.id))
  let incoming := Incoming.ofConnections circuit.connections
  ⟨circuit, signals, incoming, circuit.nodes.map (Element.ofNode signals incoming)⟩

end Schematic
