import Schematic.Gate

/-!
# Circuits

A circuit is what a script declares: nodes and connections, both in declaration order.

* `Endpoint`: a slot of a node, written `node.slot`.
* `Connection.key`: the text that names a connection in a table of levels.
* `Circuit.inputs`, `Circuit.outputs`: the nodes of type `In` and `Out`.
-/

namespace Schematic

/-- One slot of one node. -/
structure Endpoint where
  node : String
  slot : String
  deriving DecidableEq

/-- The written form, `node.slot`. -/
def Endpoint.text (e : Endpoint) : String := e.node ++ "." ++ e.slot

/-- A directed wire between two slots. -/
structure Connection where
  source : Endpoint
  target : Endpoint
  deriving DecidableEq

/-- The name of a connection, `source.slot->target.slot`. -/
def Connection.key (c : Connection) : String := c.source.text ++ "->" ++ c.target.text

/-- A declared element: type keyword as written, position on the canvas, and the free words after. -/
structure Node where
  id : String
  type : String
  x : Int
  y : Int
  options : List String
  deriving DecidableEq

/-- What the type keyword of a node says that it does. -/
def Node.kind (n : Node) : Kind := Kind.ofType n.type

/-- Whether a free word stands after the coordinates. -/
def Node.hasOption (n : Node) (option : String) : Bool := n.options.contains option

/-- Nodes and connections in declaration order. An id may be declared several times, and a
connection may name an id that is never declared. -/
structure Circuit where
  nodes : List Node
  connections : List Connection
  deriving DecidableEq

namespace Circuit

def node? (c : Circuit) (id : String) : Option Node := c.nodes.find? (·.id == id)

def inputs (c : Circuit) : List Node := c.nodes.filter (·.kind == .input)

def outputs (c : Circuit) : List Node := c.nodes.filter (·.kind == .output)

end Circuit

end Schematic
