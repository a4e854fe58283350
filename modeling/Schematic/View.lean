import Schematic.Evaluation

/-!
# Views

What a canvas needs to draw an evaluated circuit.

* `Widget`: what is shown for a node, with the levels on its pins.
* `Netlist.view`: the widgets and wires of a circuit under given inputs and a given evaluation.
-/

namespace Schematic

/-- What is shown for a node. A pin shows `none` when it is wired to a node without a value, and
low when nothing is wired to it. -/
inductive Widget where
  /-- A switch. -/
  | input (label : String) (value : Bool)
  /-- A lamp. -/
  | output (label : String) (value : Option Bool)
  /-- A gate with one pin. -/
  | unary (label : String) (input output : Option Bool)
  /-- A gate with two pins; nodes of unknown type are drawn this way too. -/
  | binary (label : String) (inputA inputB output : Option Bool)
  deriving DecidableEq

structure ViewNode where
  id : String
  x : Int
  y : Int
  widget : Widget
  deriving DecidableEq

/-- A wire on the canvas; an active wire carries the high level. -/
structure ViewEdge where
  connection : Connection
  active : Bool
  deriving DecidableEq

structure View where
  nodes : List ViewNode
  edges : List ViewEdge
  deriving DecidableEq

/-- The level shown on a pin: that at the source of its connection. -/
def Evaluation.pin (e : Evaluation) : Option (Connection × Nat) → Option Bool
  | some (c, _) => e.output? c.source.node
  | none => some false

namespace Netlist

/-- The widget of a node. A gate with one pin shows the earliest connection on any slot. -/
def widget (n : Netlist) (inputs : Levels) (e : Evaluation) (node : Node) : Widget :=
  let twoPins : Widget :=
    .binary node.type (e.pin (n.incoming.first? node.id firstSlots))
      (e.pin (n.incoming.first? node.id secondSlots)) (e.output? node.id)
  match node.kind with
  | .input => .input node.id (inputs.level node.id)
  | .output => .output node.id (e.output? node.id)
  | .gate g =>
    if g.arity = 1 then
      .unary node.type (e.pin (n.incoming.firstAny? node.id)) (e.output? node.id)
    else twoPins
  | .unknown => twoPins

/-- **The view of a circuit** under inputs and an evaluation, which may be of another circuit. -/
def view (n : Netlist) (inputs : Levels) (e : Evaluation) : View where
  nodes := n.circuit.nodes.map fun node => ⟨node.id, node.x, node.y, n.widget inputs e node⟩
  edges := n.circuit.connections.map fun c => ⟨c, e.edge c⟩

end Netlist

end Schematic
