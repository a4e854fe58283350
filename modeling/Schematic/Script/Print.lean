import Schematic.Circuit

/-!
# Writing a script

* `Circuit.script`: the canonical script of a circuit: the nodes, an empty line if there are both
  nodes and connections, and the connections with both slots spelled out.
-/

namespace Schematic

def Node.line (n : Node) : String :=
  n.type ++ " " ++ n.id ++ " @ " ++ toString n.x ++ ", " ++ toString n.y
    ++ String.join (n.options.map (" " ++ ·))

def Connection.line (c : Connection) : String := c.source.text ++ " -> " ++ c.target.text

/-- The lines of the canonical script. -/
def Circuit.scriptLines (c : Circuit) : List String :=
  c.nodes.map Node.line
    ++ (if c.nodes.isEmpty || c.connections.isEmpty then [] else [""])
    ++ c.connections.map Connection.line

/-- **The canonical script of a circuit.** -/
def Circuit.script (c : Circuit) : String := String.join (c.scriptLines.map (· ++ "\n"))

end Schematic
