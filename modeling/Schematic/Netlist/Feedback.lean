import Schematic.Netlist
import Schematic.Netlist.Reachability

/-!
# Feedback

* `Netlist.edges`: the wiring that is read, as edges between signals.
* `Netlist.loops`: the classes of signals that reach each other, each in rising order, and ordered by
  their first signals.
-/

namespace Schematic.Netlist

/-- The wiring that is read, as edges from the signal at the source to the signal that is driven. -/
def edges (n : Netlist) : List (Nat × Nat) :=
  n.elements.flatMap fun e => e.cell.wires.filterMap fun w => w.source.map (·, e.signal)

/-- The signals that a signal reaches and is reached from, in order. -/
def loopOf (reach : Rows) (size signal : Nat) : List Nat :=
  (List.range size).filter fun s => reach.has signal s && reach.has s signal

/-- The loops of the wiring: for every signal that reaches itself, and is the first of its loop, the
signals of that loop. -/
def loops (n : Netlist) : List (List Nat) :=
  let size := n.signals.size
  let reach := (Rows.ofEdges size n.edges).closure
  ((List.range size).filter fun s => reach.has s s).filterMap fun s =>
    let loop := loopOf reach size s
    if loop.head? = some s then some loop else none

end Schematic.Netlist
