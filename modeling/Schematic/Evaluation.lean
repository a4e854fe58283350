import Std.Data.ExtTreeMap
import Schematic.Relaxation

/-!
# Evaluation

* `Levels`: a table from ids, or connection keys, to logic levels.
* `Netlist.evaluate`: the level of every node and connection under given inputs.
* `Netlist.evaluateStrict`: the same, refused if the cap was reached.
-/

namespace Schematic

/-- A finite table of logic levels. Two tables with the same entries are equal, and its list is
sorted by code points. -/
abbrev Levels := Std.ExtTreeMap String Bool

/-- The level of an entry, low if there is none. -/
def Levels.level (levels : Levels) (key : String) : Bool := levels[key]?.getD false

/-- The cap on the number of passes when none is given. -/
def defaultCap : Nat := 100

structure Evaluation where
  /-- The level of every id that has a value. -/
  nodeOutputs : Levels
  /-- The level of every connection, by its key. -/
  edgeStates : Levels
  iterations : Nat
  converged : Bool

/-- The level of a node, if it was computed. -/
def Evaluation.output? (e : Evaluation) (id : String) : Option Bool := e.nodeOutputs[id]?

/-- The level of a connection. -/
def Evaluation.edge (e : Evaluation) (c : Connection) : Bool := e.edgeStates.level c.key

namespace Netlist

def unknowns (n : Netlist) : Values := Array.replicate n.signals.size none

/-- Exactly the signals with an entry have a value; entries for other ids are ignored. -/
def preset (n : Netlist) (levels : Levels) : Values :=
  levels.toList.foldl
    (fun values (id, level) =>
      match n.signals.number? id with
      | some s => values.setIfInBounds s (some level)
      | none => values)
    n.unknowns

/-- Every input is driven with its level, low if it has none. -/
def seed (n : Netlist) (inputs : Levels) : Values :=
  n.elements.foldl
    (fun values e =>
      if e.cell = .input then values.setIfInBounds e.signal (some (inputs.level e.node.id))
      else values)
    n.unknowns

/-- The value of the node with an id. -/
def value? (n : Netlist) (values : Values) (id : String) : Option Bool := do
  let s ← n.signals.number? id
  (values[s]?).join

/-- The known values, by id. -/
def nodeOutputs (n : Netlist) (values : Values) : Levels :=
  .ofList ((n.signals.names.zip values).toList.filterMap fun (id, v) => v.map (id, ·))

/-- The value at the source of every connection, low if it is not known. Connections with one key
share one entry, that of the last. -/
def edgeStates (n : Netlist) (values : Values) : Levels :=
  .ofList (n.circuit.connections.map fun c =>
    (c.key, (n.value? values c.source.node).getD false))

/-- **Drives the inputs and relaxes.** Levels given for ids that are no inputs are ignored. -/
def evaluate (n : Netlist) (cap : Nat) (inputs : Levels) : Evaluation :=
  let r := relax n.elements cap (n.seed inputs)
  ⟨n.nodeOutputs r.values, n.edgeStates r.values, r.iterations, r.converged⟩

end Netlist

/-- A circuit did not settle within a number of passes. -/
structure NotSettled where
  iterations : Nat
  deriving DecidableEq

def NotSettled.message (f : NotSettled) : String :=
  "Circuit did not settle after " ++ toString f.iterations ++ " iterations (combinational feedback?)"

/-- As `Netlist.evaluate`, but values that have not settled are refused. -/
def Netlist.evaluateStrict (n : Netlist) (cap : Nat) (inputs : Levels) :
    Except NotSettled Evaluation :=
  let e := n.evaluate cap inputs
  if e.converged then .ok e else .error ⟨e.iterations⟩

end Schematic
